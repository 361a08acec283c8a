import Kubespray.Inventory.Creation

/-!
# Address ranges

A creation with the argument `a-b`. `range2ips` turns both addresses into integers and every integer
of the interval into an address again, and `build_hostnames` goes by the first character of what it
gets. So the hosts of a range have the addresses of the interval only if the integers stand for
addresses of the same version, and if every printed address starts with a digit (`ranges_iff`).
-/

namespace Kubespray

open Py

/-! ## Hosts without a given name -/

/-- The names that `build_hostnames` gives to hosts that are given by their ips only, with ids from
`id` on. -/
def namedTexts (env : Env) : Nat → List String → Except Exc (List (String × String))
  | _, [] => pure []
  | id, text :: texts => do
    let (name, id) ← nextHost env id text
    pure ((name, text) :: (← namedTexts env id texts))

/-- The hosts with these ips get names, these differ, and no ip is the name of a host before it. -/
def NamesApart (env : Env) (texts : List String) : Prop :=
  ∃ named, namedTexts env 1 texts = .ok named ∧ named.Pairwise fun p q => p.1 ≠ q.1 ∧ p.1 ≠ q.2

section
variable {env : Env} {id : Nat} {texts : List String} {named : List (String × String)}

/-- The hosts have the ips in their order. -/
theorem map_snd_namedTexts (h : namedTexts env id texts = .ok named) :
    named.map Prod.snd = texts := by
  induction texts generalizing id named with
  | nil =>
    cases h
    rfl
  | cons text texts ih =>
    simp only [namedTexts, bind_eq_ok] at h
    obtain ⟨⟨name, id'⟩, -, named', hn, h⟩ := h
    cases h
    rw [List.map_cons, ih hn]

/-- Generated names are numbered from `id` on, and apart from ips that start with a digit. -/
theorem namedTexts_generated (hreal : env.useRealHostname = false)
    (hletter : env.hostPrefix.toList.head?.any env.chars.isalpha = true) (id : Nat)
    (hdigit : ∀ text ∈ texts, text.toList.head?.any env.chars.isdigit = true) :
    ∃ named, namedTexts env id texts = .ok named ∧
      (named.Pairwise fun p q => p.1 ≠ q.1 ∧ p.1 ≠ q.2) ∧
      ∀ p ∈ named, ∃ i, id ≤ i ∧ p.1 = generatedName env i := by
  induction texts generalizing id with
  | nil => exact ⟨[], rfl, .nil, fun p hp => absurd hp List.not_mem_nil⟩
  | cons text texts ih =>
    obtain ⟨named, hnamed, happart, hids⟩ := ih (id + 1) fun text ht => hdigit text (.tail _ ht)
    refine ⟨(generatedName env id, text) :: named, ?_, .cons (fun q hq => ⟨?_, ?_⟩) happart, ?_⟩
    · simp only [namedTexts, nextHost, hreal, Bool.false_eq_true, if_false, pure_eq_ok, ok_bind,
        hnamed]
      rfl
    · obtain ⟨i, hi, he⟩ := hids q hq
      intro hq'
      have hid : id = i := generatedName_injective (hq'.trans he)
      omega
    · have hq' : q.2 ∈ texts := map_snd_namedTexts hnamed ▸ List.mem_map_of_mem hq
      exact (AddArg.ne_generatedName (hdigit _ (.tail _ hq')) hletter id).symm
    · intro p hp
      rcases List.mem_cons.1 hp with rfl | hp
      · exact ⟨id, le_refl _, rfl⟩
      · obtain ⟨i, hi, he⟩ := hids p hp
        exact ⟨i, by omega, he⟩

/-- So with a `HOST_PREFIX` that starts with a letter, as by default, the names are apart. -/
theorem namesApart_generated (hreal : env.useRealHostname = false)
    (hletter : env.hostPrefix.toList.head?.any env.chars.isalpha = true)
    (hdigit : ∀ text ∈ texts, text.toList.head?.any env.chars.isdigit = true) :
    NamesApart env texts := by
  obtain ⟨named, hnamed, happart, -⟩ := namedTexts_generated hreal hletter 1 hdigit
  exact ⟨named, hnamed, happart⟩

end

/-! ## The loop over the texts -/

section
variable {env : Env} {s s' : Locals} {text : String} {texts : List String}
  {named : List (String × String)}

/-- An argument adds one host at most. -/
theorem Change.size_le {host : String} (h : Change env s host s') :
    s'.allHosts.size ≤ s.allHosts.size + 1 := by
  have hins : ∀ name opts, (s.allHosts.insert name opts).size ≤ s.allHosts.size + 1 := by
    intro name opts
    rw [OrdDict.size_insert]
    split <;> omega
  cases h with
  | kept hosts _ => rw [hosts]; omega
  | deleted name _ _ hosts _ =>
    rw [hosts]
    exact (OrdDict.size_erase_le _ _).trans (Nat.le_succ _)
  | generated _ _ _ _ _ _ _ _ hosts => rw [hosts]; exact hins _ _
  | named _ _ _ _ _ hosts _ => rw [hosts]; exact hins _ _

theorem loop_size_le (h : texts.foldlM (argument env) s = .ok s') :
    s'.allHosts.size ≤ s.allHosts.size + texts.length := by
  induction texts generalizing s with
  | nil =>
    cases h
    exact le_refl _
  | cons text texts ih =>
    rw [List.foldlM_cons, bind_eq_ok] at h
    obtain ⟨s₁, hs₁, h⟩ := h
    have hstep := (argument_change hs₁).1.size_le
    have hrest := ih h
    rw [List.length_cons]
    omega

/-- A text without a comma sets no host name. -/
theorem hostname_of_noComma (hcomma : ',' ∉ text.toList) (h : argument env s text = .ok s') :
    s'.hostname = s.hostname := by
  rcases (argument_change h).2 with he | ⟨name, -, -, hm, -⟩
  · exact he
  · exact absurd hm hcomma

/-- A text without a comma that adds a host starts with a digit, and is stored under a new name. -/
theorem stored_of_size (hcomma : ',' ∉ text.toList) (hname : s.hostname = none)
    (h : argument env s text = .ok s') (hsize : s'.allHosts.size = s.allHosts.size + 1) :
    text.toList.head?.any env.chars.isdigit = true ∧ text ∉ s.allHosts.keys ∧
      ∃ name, nextHost env s.nextHostId text = .ok (name, s'.nextHostId) ∧
        name ∉ s.allHosts.keys ∧
        s'.allHosts = s.allHosts.insert name (hostOpts text text) := by
  have hname' := hostname_of_noComma hcomma h
  cases (argument_change h).1 with
  | kept hosts _ =>
    rw [hosts] at hsize
    omega
  | deleted name _ _ hosts _ =>
    have hle := OrdDict.size_erase_le s.allHosts name
    rw [← hosts] at hle
    omega
  | generated name ip accessIp digit parts unnamed new next hosts =>
    rw [ipParts, if_neg hcomma] at parts
    cases parts
    refine ⟨digit, unnamed, name, next, fun hm => ?_, hosts⟩
    rw [hosts, OrdDict.size_insert, if_pos hm] at hsize
    omega
  | named name ip accessIp new hostname hosts _ =>
    rw [hname', hname] at hostname
    cases hostname

/-- A loop that adds a host for every text has names for them, which are new and apart. -/
theorem named_of_loop (hcomma : ∀ text ∈ texts, ',' ∉ text.toList) (hname : s.hostname = none)
    (h : texts.foldlM (argument env) s = .ok s')
    (hsize : s'.allHosts.size = s.allHosts.size + texts.length) :
    (∀ text ∈ texts, text.toList.head?.any env.chars.isdigit = true) ∧
      ∃ named, namedTexts env s.nextHostId texts = .ok named ∧
        (named.Pairwise fun p q => p.1 ≠ q.1 ∧ p.1 ≠ q.2) ∧
        ∀ p ∈ named, p.1 ∉ s.allHosts.keys ∧ p.2 ∉ s.allHosts.keys := by
  induction texts generalizing s with
  | nil =>
    exact ⟨fun text ht => absurd ht List.not_mem_nil, [], rfl, .nil,
      fun p hp => absurd hp List.not_mem_nil⟩
  | cons text texts ih =>
    rw [List.foldlM_cons, bind_eq_ok] at h
    obtain ⟨s₁, hs₁, h⟩ := h
    rw [List.length_cons] at hsize
    have hstep := (argument_change hs₁).1.size_le
    have hrest := loop_size_le h
    have htext := hcomma text (.head _)
    obtain ⟨hdigit, hunnamed, name, hnext, hnew, hhosts⟩ :=
      stored_of_size htext hname hs₁ (by omega)
    obtain ⟨hdigits, named, hnamed, happart, hfresh⟩ :=
      ih (fun text ht => hcomma text (.tail _ ht)) ((hostname_of_noComma htext hs₁).trans hname) h
        (by omega)
    have hkeys : ∀ k, k ∉ s₁.allHosts.keys ↔ k ≠ name ∧ k ∉ s.allHosts.keys := by
      intro k
      rw [hhosts, OrdDict.mem_keys_insert, not_or]
    refine ⟨List.forall_mem_cons.2 ⟨hdigit, hdigits⟩, (name, text) :: named, ?_,
      .cons (fun q hq => ?_) happart, List.forall_mem_cons.2 ⟨⟨hnew, hunnamed⟩, fun q hq => ?_⟩⟩
    · simp only [namedTexts, hnext, ok_bind, hnamed]
      rfl
    · obtain ⟨hq₁, hq₂⟩ := hfresh q hq
      exact ⟨((hkeys _).1 hq₁).1.symm, ((hkeys _).1 hq₂).1.symm⟩
    · obtain ⟨hq₁, hq₂⟩ := hfresh q hq
      exact ⟨((hkeys _).1 hq₁).2, ((hkeys _).1 hq₂).2⟩

/-- A text that starts with a digit, names no host and is no host's ip is stored under its new
name. -/
theorem argument_stored (hcomma : ',' ∉ text.toList)
    (hdigit : text.toList.head?.any env.chars.isdigit = true) (hips : HasIps s.allHosts)
    (hunnamed : text ∉ s.allHosts.keys) (hnew : carriesIp s.allHosts text = false)
    {name : String} {id : Nat} (hnext : nextHost env s.nextHostId text = .ok (name, id)) :
    argument env s text = .ok { s with
      ip := some text, accessIp := some text
      allHosts := s.allHosts.insert name (hostOpts text text), nextHostId := id } := by
  have hno : existsHostname s.allHosts text = false := decide_eq_false hunnamed
  have hex := existsIp_eq hips text
  rw [hnew] at hex
  rw [AddArg.argument_of_digit hdigit, ipArgument, ipParts, if_neg hcomma, ok_bind]
  simp only [hno, hex, hnext, ok_bind, pure_eq_ok, Bool.false_eq_true, if_false]

/-- When there are new names for the texts that are apart, the loop adds a host for every text. -/
theorem loop_of_named (hcomma : ∀ text ∈ texts, ',' ∉ text.toList)
    (hdigit : ∀ text ∈ texts, text.toList.head?.any env.chars.isdigit = true)
    (hips : HasIps s.allHosts) (hnd : texts.Nodup)
    (hnew : ∀ text ∈ texts, carriesIp s.allHosts text = false)
    (hnamed : namedTexts env s.nextHostId texts = .ok named)
    (happart : named.Pairwise fun p q => p.1 ≠ q.1 ∧ p.1 ≠ q.2)
    (hfresh : ∀ p ∈ named, p.1 ∉ s.allHosts.keys ∧ p.2 ∉ s.allHosts.keys) :
    ∃ s', texts.foldlM (argument env) s = .ok s' ∧
      s'.allHosts.items = s.allHosts.items ++ named.map fun p => (p.1, hostOpts p.2 p.2) := by
  induction texts generalizing s named with
  | nil =>
    cases hnamed
    exact ⟨s, rfl, (List.append_nil _).symm⟩
  | cons text texts ih =>
    simp only [namedTexts, bind_eq_ok] at hnamed
    obtain ⟨⟨name, id⟩, hnext, rest, hrest, he⟩ := hnamed
    cases he
    obtain ⟨hname, hunnamed⟩ := hfresh (name, text) (.head _)
    have hstep := argument_stored (hcomma text (.head _)) (hdigit text (.head _)) hips hunnamed
      (hnew text (.head _)) hnext
    have hitems : (s.allHosts.insert name (hostOpts text text)).items =
        s.allHosts.items ++ [(name, hostOpts text text)] := Assoc.insert_of_not_mem hname _
    rw [List.nodup_cons] at hnd
    rw [List.pairwise_cons] at happart
    have hnew' :
        ∀ t ∈ texts, carriesIp (s.allHosts.insert name (hostOpts text text)) t = false := by
      intro t ht
      have hne : text ≠ t := fun he => hnd.1 (he ▸ ht)
      rw [carriesIp, hitems, List.any_append, ← carriesIp, hnew t (.tail _ ht)]
      simp [hne]
    have hfresh' : ∀ q ∈ rest, q.1 ∉ (s.allHosts.insert name (hostOpts text text)).keys ∧
        q.2 ∉ (s.allHosts.insert name (hostOpts text text)).keys := by
      intro q hq
      obtain ⟨hq₁, hq₂⟩ := hfresh q (.tail _ hq)
      obtain ⟨hne₁, hne₂⟩ := happart.1 q hq
      simp only [OrdDict.mem_keys_insert, not_or]
      exact ⟨⟨hne₁.symm, hq₁⟩, hne₂.symm, hq₂⟩
    obtain ⟨s', hloop, hs'⟩ := ih (fun t ht => hcomma t (.tail _ ht))
      (fun t ht => hdigit t (.tail _ ht)) ((argument_change hstep).1.hasIps hips) hnd.2 hnew' hrest
      happart.2 hfresh'
    refine ⟨s', by rw [List.foldlM_cons, hstep, ok_bind, hloop], ?_⟩
    rw [hs', hitems, List.map_cons, List.append_assoc, List.singleton_append]

end

/-! ## Creations with one argument -/

/-- The hosts have these addresses, in their order. -/
def HaveAddresses (hosts : List (String × Value)) (addresses : List IpAddress) : Prop :=
  List.Forall₂ (fun p a => ∃ ip, hasIp p.2 ip = true ∧ IpAddress.ofString ip = some a)
    hosts addresses

/-- The creation with the argument `arg` returns, and its hosts have these addresses. -/
def Creates (env : Env) (file : ConfigFile) (arg : String) (addresses : List IpAddress) : Prop :=
  ∃ cfg, run env [arg] file = (.ok (), .yaml cfg) ∧ HaveAddresses (hostsOf cfg) addresses

section
variable {env : Env} {file : ConfigFile} {arg : String} {texts : List String}
  {addresses : List IpAddress}

/-- The host list of a creation whose only argument has a dash, but not in front. -/
theorem builds_single {start : Value} {hosts : OrdDict String Value} (hdash : '-' ∈ arg.toList)
    (hdel : ¬ IsDeletion arg) :
    builds env [arg] file = .ok (start, hosts) ↔
      ∃ changed s', range2ips env [arg] = .ok changed ∧
        changed.foldlM (argument env) { allHosts := .empty, nextHostId := 1 } = .ok s' ∧
        start = Inventory.fresh.toValue ∧ hosts = s'.allHosts := by
  have hcommand : arg ∉ availableCommands := by
    have hall : ∀ c ∈ availableCommands, '-' ∉ c.toList := by decide
    exact fun hm => hall arg hm hdash
  have hload : loadPreviousConfig false [arg] = .ok false := by
    unfold IsDeletion at hdel
    cases hl : arg.toList with
    | nil =>
      rw [hl] at hdash
      cases hdash
    | cons c cs =>
      have hc : c ≠ '-' := by simpa [hl] using hdel
      simp [loadPreviousConfig, hl, hc]
  have hstart : startConfig false file = .ok Inventory.fresh.toValue := rfl
  rw [builds, inventoryArgs, if_pos hcommand]
  simp only [built, hload, hstart, ok_bind, List.isEmpty_cons, Bool.false_eq_true, if_false,
    bind_eq_ok, buildHostnames_eq_ok, initialLocals_false]
  constructor
  · rintro ⟨changed, hr, _, ⟨s, s', hs, hloop, rfl⟩, he⟩
    cases hs
    cases he
    exact ⟨changed, s', hr, hloop, rfl, rfl⟩
  · rintro ⟨changed, s', hr, hloop, rfl, rfl⟩
    exact ⟨changed, hr, _, ⟨_, s', rfl, hloop, rfl⟩, rfl⟩

/-- Such a creation returns with the passes on what the loop leaves. -/
theorem run_single {cfg : Value} (hdash : '-' ∈ arg.toList) (hdel : ¬ IsDeletion arg) :
    run env [arg] file = (.ok (), .yaml cfg) ↔
      ∃ changed s', range2ips env [arg] = .ok changed ∧
        changed.foldlM (argument env) { allHosts := .empty, nextHostId := 1 } = .ok s' ∧
        cfg = (Inventory.fresh.place env s'.allHosts).toValue := by
  rw [run_eq_ok]
  simp only [builds_single hdash hdel]
  constructor
  · rintro ⟨start, hosts, w, ⟨changed, s', hr, hloop, rfl, rfl⟩, hw, hcfg⟩
    rw [setGroups_toValue] at hw
    cases hw
    cases hcfg
    exact ⟨changed, s', hr, hloop, rfl⟩
  · rintro ⟨changed, s', hr, hloop, rfl⟩
    exact ⟨_, _, _, ⟨changed, s', hr, hloop, rfl, rfl⟩, setGroups_toValue _, rfl⟩

/-- The addresses of hosts that are given by their ips. -/
theorem haveAddresses_named {named : List (String × String)} (h : named.map Prod.snd = texts) :
    HaveAddresses (named.map fun p => (p.1, hostOpts p.2 p.2)) addresses ↔
      List.Forall₂ (fun text a => IpAddress.ofString text = some a) texts addresses := by
  rw [HaveAddresses, List.forall₂_map_left_iff, ← h, List.forall₂_map_left_iff]
  simp

/-- A creation whose argument stands for as many texts as there are addresses: the texts start with
digits, the names of their hosts are apart, and they are read as the addresses. -/
theorem creates_iff (hdash : '-' ∈ arg.toList) (hdel : ¬ IsDeletion arg)
    (hr : range2ips env [arg] = .ok texts) (hcomma : ∀ text ∈ texts, ',' ∉ text.toList)
    (hnd : texts.Nodup) (hlen : texts.length = addresses.length) :
    Creates env file arg addresses ↔
      (∀ text ∈ texts, text.toList.head?.any env.chars.isdigit = true) ∧ NamesApart env texts ∧
        List.Forall₂ (fun text a => IpAddress.ofString text = some a) texts addresses := by
  have hstored : ∀ named, (∀ text ∈ texts, text.toList.head?.any env.chars.isdigit = true) →
      namedTexts env 1 texts = .ok named → (named.Pairwise fun p q => p.1 ≠ q.1 ∧ p.1 ≠ q.2) →
      ∃ s', texts.foldlM (argument env) { allHosts := .empty, nextHostId := 1 } = .ok s' ∧
        s'.allHosts.items = named.map fun p => (p.1, hostOpts p.2 p.2) := by
    intro named hdigit hnamed happart
    exact loop_of_named hcomma hdigit (fun p hp => absurd hp List.not_mem_nil) hnd (fun _ _ => rfl)
      hnamed happart fun p _ => ⟨List.not_mem_nil, List.not_mem_nil⟩
  constructor
  · rintro ⟨cfg, hrun, haddr⟩
    obtain ⟨changed, s', hr', hloop, rfl⟩ := (run_single hdash hdel).1 hrun
    obtain rfl : texts = changed := Except.ok.inj (hr.symm.trans hr')
    rw [hostsOf_toValue, Inventory.fresh_place_hosts] at haddr
    have hsize : s'.allHosts.size = 0 + texts.length := by
      rw [Nat.zero_add, hlen]
      exact haddr.length_eq
    obtain ⟨hdigit, named, hnamed, happart, -⟩ := named_of_loop hcomma rfl hloop hsize
    obtain ⟨s'', hloop', hitems⟩ := hstored named hdigit hnamed happart
    obtain rfl : s' = s'' := Except.ok.inj (hloop.symm.trans hloop')
    rw [hitems, haveAddresses_named (map_snd_namedTexts hnamed)] at haddr
    exact ⟨hdigit, ⟨named, hnamed, happart⟩, haddr⟩
  · rintro ⟨hdigit, ⟨named, hnamed, happart⟩, haddr⟩
    obtain ⟨s', hloop, hitems⟩ := hstored named hdigit hnamed happart
    refine ⟨_, (run_single hdash hdel).2 ⟨texts, s', hr, hloop, rfl⟩, ?_⟩
    rw [hostsOf_toValue, Inventory.fresh_place_hosts, hitems,
      haveAddresses_named (map_snd_namedTexts hnamed)]
    exact haddr

end

/-! ## The texts of an interval -/

/-- The integers from `x` to `y`. -/
def interval (x y : Nat) : List Nat := List.range' x (y + 1 - x)

/-- How `range2ips` writes the address of an integer. -/
def addressText (n : Nat) : String := (if n < 2 ^ 32 then IpAddress.v4 n else .v6 n).exploded

section
variable {x y n : Nat}

theorem mem_interval : n ∈ interval x y ↔ x ≤ n ∧ n ≤ y := by
  rw [interval, List.mem_range'_1]
  omega

theorem interval_self (x : Nat) : interval x x = [x] := by
  rw [interval, Nat.add_sub_cancel_left]
  rfl

/-- What `range2ips` writes is read as an address of that version. -/
theorem ofString_addressText (h : n < 2 ^ 128) :
    IpAddress.ofString (addressText n) = some (if n < 2 ^ 32 then .v4 n else .v6 n) :=
  IpAddress.ofString_exploded (IpAddress.ofNat_eq_some h)

/-- The texts of different integers differ. -/
theorem nodup_addressTexts (h : y < 2 ^ 128) : ((interval x y).map addressText).Nodup := by
  have htoNat : ∀ n, (if n < 2 ^ 32 then IpAddress.v4 n else .v6 n).toNat = n := by
    intro n
    split <;> rfl
  refine List.Nodup.map_on (fun m hm n hn he => ?_) List.nodup_range'
  have hm' := (mem_interval.1 hm).2
  have hn' := (mem_interval.1 hn).2
  have hread := congrArg IpAddress.ofString he
  rw [ofString_addressText (by omega), ofString_addressText (by omega)] at hread
  have hint := congrArg IpAddress.toNat (Option.some.inj hread)
  rwa [htoNat, htoNat] at hint

/-- What `ips` returns for two addresses. -/
theorem ips_eq {first last : String} {a b : IpAddress} (ha : IpAddress.ofString first = some a)
    (hb : IpAddress.ofString last = some b) :
    ips first last = some ((interval a.toNat b.toNat).map addressText) := by
  rw [ips, ha, hb]
  refine IpAddress.mapM_eq_some_map fun n hn => ?_
  have hlt := IpAddress.toNat_lt_of_ofString hb
  have hn' := (mem_interval.1 hn).2
  rw [IpAddress.ofNat_eq_some (by omega)]
  rfl

end

/-! ## Reading a range -/

/-- The argument is written as the range from `a` to `b`. -/
def IsRangeOf (env : Env) (arg : String) (a b : IpAddress) : Prop :=
  ∃ first last, split '-' (strip env.chars arg) = [first, last] ∧
    IpAddress.ofString first = some a ∧ IpAddress.ofString last = some b

section
variable {env : Env} {arg : String} {texts : List String}

/-- An argument that is taken for a range is expanded iff it is one. -/
theorem expandRange_eq_ok (h : isRange env arg = true) :
    expandRange env arg = .ok texts ↔
      ∃ a b, IsRangeOf env arg a b ∧ texts = (interval a.toNat b.toNat).map addressText := by
  rw [expandRange, if_pos h]
  constructor
  · intro he
    split at he
    · next first last hsplit =>
      cases hips : ips first last with
      | none =>
        rw [hips] at he
        cases he
      | some addresses =>
        rw [hips] at he
        cases he
        have hparts := hips
        simp only [ips, Option.bind_eq_bind, Option.bind_eq_some_iff] at hparts
        obtain ⟨a, ha, b, hb, -⟩ := hparts
        rw [ips_eq ha hb] at hips
        cases hips
        exact ⟨a, b, ⟨first, last, hsplit, ha, hb⟩, rfl⟩
    · cases he
  · rintro ⟨a, b, ⟨first, last, hsplit, ha, hb⟩, rfl⟩
    simp only [hsplit, ips_eq ha hb]

theorem range2ips_single : range2ips env [arg] = .ok texts ↔ expandRange env arg = .ok texts := by
  simp only [range2ips, List.mapM_cons, List.mapM_nil]
  cases expandRange env arg <;> simp

/-- In any list of arguments, those that are no ranges stay what and where they are, if no argument
is taken for a range that it is not; else no argument is expanded. -/
theorem range2ips_parts (args : List String) :
    (∃ parts : List (List String), range2ips env args = .ok parts.flatten ∧
      List.Forall₂ (fun arg part => (¬ ∃ a b, IsRangeOf env arg a b) → part = [arg]) args parts) ↔
    ∀ arg ∈ args, isRange env arg = true → ∃ a b, IsRangeOf env arg a b := by
  constructor
  · rintro ⟨parts, hr, -⟩ arg harg hrange
    rw [range2ips, bind_eq_ok] at hr
    obtain ⟨parts', hmap, -⟩ := hr
    obtain ⟨part, -, he⟩ := exists_mem_of_mapM_eq_ok hmap harg
    obtain ⟨a, b, hab, -⟩ := (expandRange_eq_ok hrange).1 he
    exact ⟨a, b, hab⟩
  · intro h
    have hall : ∀ arg ∈ args, ∃ part, expandRange env arg = .ok part := by
      intro arg harg
      cases hrange : isRange env arg with
      | true =>
        obtain ⟨a, b, hab⟩ := h arg harg hrange
        exact ⟨_, (expandRange_eq_ok hrange).2 ⟨a, b, hab, rfl⟩⟩
      | false => exact ⟨[arg], by rw [expandRange, hrange]; rfl⟩
    obtain ⟨parts, hmap⟩ := mapM_isOk_iff.2 hall
    refine ⟨parts, by rw [range2ips, hmap]; rfl, ?_⟩
    have hparts := mapM_eq_ok_iff.1 hmap
    have hself :
        List.Forall₂ (fun arg part => arg ∈ args ∧ expandRange env arg = .ok part) args parts :=
      (List.forall₂_and_left _ _).2 ⟨fun _ ha => ha, hparts⟩
    refine hself.imp fun arg part hpart hno => ?_
    obtain ⟨harg, he⟩ := hpart
    have hrange : isRange env arg = false := by
      rw [← Bool.not_eq_true]
      exact fun hrange => hno (h arg harg hrange)
    rw [expandRange, hrange] at he
    cases he
    rfl

end

/-! ## Two addresses -/

section
variable {env : Env} {file : ConfigFile} {s t : String} {a b : IpAddress} {texts : List String}
  {addresses : List IpAddress}

/-- The first character of a range is that of its first address. -/
theorem head_of_range (hs : IpAddress.ofString s = some a) :
    ∃ c, s.toList.head? = some c ∧ (s ++ "-" ++ t).toList.head? = some c ∧
      46 ≤ c.toNat ∧ c.toNat < 128 := by
  obtain ⟨c, cs, hl, hc⟩ := IpAddress.head_of_ofString hs
  exact ⟨c, by rw [hl]; rfl, by simp [hl], hc⟩

theorem dash_mem_range : '-' ∈ (s ++ "-" ++ t).toList := by simp

theorem range_not_deletion (hs : IpAddress.ofString s = some a) :
    ¬ IsDeletion (s ++ "-" ++ t) := by
  obtain ⟨c, -, hhead, hc⟩ := @head_of_range s t a hs
  rw [IsDeletion, hhead]
  intro he
  cases he
  exact absurd hc (by decide)

/-- It is taken for a range if it does not start with a letter. -/
theorem isRange_range (hs : IpAddress.ofString s = some a) :
    isRange env (s ++ "-" ++ t) = !s.toList.head?.any env.chars.isalpha := by
  obtain ⟨c, hc, hhead, hrange⟩ := @head_of_range s t a hs
  have hdash : startsWith (s ++ "-" ++ t) "-" = false := by
    rw [← Bool.not_eq_true, startsWith_iff]
    intro hpre
    obtain ⟨rest, hrest⟩ := hpre
    rw [← hrest] at hhead
    cases hhead
    exact absurd hrange (by decide)
  rw [isRange, hdash, hhead, hc]
  simp

/-- The characters of addresses are no white space. -/
theorem isspace_eq_false
    (hspace : ∀ c : Char, c.toNat < 128 → env.chars.isspace c = isAsciiSpace c) {c : Char}
    (hc : 37 ≤ c.toNat ∧ c.toNat < 128) : env.chars.isspace c = false := by
  rw [hspace c hc.2, isAsciiSpace_eq_false (by omega)]

/-- Only white space behind an address is stripped. -/
theorem eq_strip_address
    (hspace : ∀ c : Char, c.toNat < 128 → env.chars.isspace c = isAsciiSpace c)
    (hs : IpAddress.ofString s = some a) :
    ∃ space, s = strip env.chars s ++ space ∧ ∀ c ∈ space.toList, env.chars.isspace c = true := by
  obtain ⟨c, cs, hcs, hc⟩ := IpAddress.head_of_ofString hs
  have hhead : s.toList.head? = some c := by rw [hcs]; rfl
  exact eq_strip_append hhead (isspace_eq_false hspace ⟨by omega, hc.2⟩)

/-- Without the white space behind it an address is the same, if it is one. -/
theorem ofString_strip (hspace : ∀ c : Char, c.toNat < 128 → env.chars.isspace c = isAsciiSpace c)
    (hs : IpAddress.ofString s = some a) (hb : IpAddress.ofString (strip env.chars s) = some b) :
    b = a := by
  obtain ⟨space, hstrip, hblank⟩ := eq_strip_address hspace hs
  have hno : ∀ c ∈ space.toList, ¬ (37 ≤ c.toNat ∧ c.toNat < 128) := by
    intro c hc hrange
    have hvisible := hblank c hc
    rw [isspace_eq_false hspace hrange] at hvisible
    cases hvisible
  refine IpAddress.eq_of_ofString_append (hstrip ▸ hs) hb fun c hc => ⟨fun hrange => ?_, ?_⟩
  · exact hno c hc ⟨by omega, hrange.2⟩
  · rintro rfl
    exact hno '%' hc (by decide)

/-- The white space behind a range is stripped. -/
theorem strip_range (hspace : ∀ c : Char, c.toNat < 128 → env.chars.isspace c = isAsciiSpace c)
    (hs : IpAddress.ofString s = some a) (ht : IpAddress.ofString t = some b) :
    strip env.chars (s ++ "-" ++ t) = s ++ String.singleton '-' ++ strip env.chars t := by
  have hdash : "-" = String.singleton '-' := rfl
  obtain ⟨c, cs, hcs, hc⟩ := IpAddress.head_of_ofString hs
  obtain ⟨d, ds, hds, hd⟩ := IpAddress.head_of_ofString ht
  have hs' : s.toList.head? = some c := by rw [hcs]; rfl
  have ht' : t.toList.head? = some d := by rw [hds]; rfl
  rw [hdash]
  exact strip_append hs' (isspace_eq_false hspace ⟨by omega, hc.2⟩) ht'
    (isspace_eq_false hspace ⟨by omega, hd.2⟩) (isspace_eq_false hspace (by decide))

/-- The white space behind the second address is stripped, and the addresses have no dash. -/
theorem isRangeOf_range (hspace : ∀ c : Char, c.toNat < 128 → env.chars.isspace c = isAsciiSpace c)
    (hs : IpAddress.ofString s = some a) (ht : IpAddress.ofString t = some b) {a' b' : IpAddress} :
    IsRangeOf env (s ++ "-" ++ t) a' b' ↔
      ('-' ∉ s.toList ∧ '-' ∉ t.toList ∧ (IpAddress.ofString (strip env.chars t)).isSome) ∧
        a' = a ∧ b' = b := by
  obtain ⟨space, hstrip, hblank⟩ := eq_strip_address hspace ht
  have hmem : '-' ∈ (strip env.chars t).toList ↔ '-' ∈ t.toList := by
    conv_rhs => rw [hstrip, String.toList_append, List.mem_append]
    refine ⟨.inl, fun h => h.resolve_right fun hm => ?_⟩
    have hvisible := hblank '-' hm
    rw [isspace_eq_false hspace (by decide)] at hvisible
    cases hvisible
  rw [IsRangeOf, strip_range hspace hs ht]
  simp only [split_append_eq_pair, hmem]
  constructor
  · rintro ⟨first, last, ⟨⟨rfl, rfl⟩, hns, hnt⟩, ha, hb⟩
    rw [hs] at ha
    cases ha
    exact ⟨⟨hns, hnt, by rw [hb]; rfl⟩, rfl, ofString_strip hspace ht hb⟩
  · rintro ⟨⟨hns, hnt, hsome⟩, rfl, rfl⟩
    obtain ⟨b'', hb⟩ := Option.isSome_iff_exists.1 hsome
    cases ofString_strip hspace ht hb
    exact ⟨_, _, ⟨⟨rfl, rfl⟩, hns, hnt⟩, hs, hb⟩

/-- A range of as many addresses as are asked for: both addresses are read, and the printed
addresses of the interval are what is asked for. -/
theorem creates_range (hspace : ∀ c : Char, c.toNat < 128 → env.chars.isspace c = isAsciiSpace c)
    (hs : IpAddress.ofString s = some a) (ht : IpAddress.ofString t = some b)
    (hletter : s.toList.head?.any env.chars.isalpha = false) {version : Nat → IpAddress} :
    Creates env file (s ++ "-" ++ t) ((interval a.toNat b.toNat).map version) ↔
      ('-' ∉ s.toList ∧ '-' ∉ t.toList ∧ (IpAddress.ofString (strip env.chars t)).isSome) ∧
        (∀ n ∈ interval a.toNat b.toNat,
          (addressText n).toList.head?.any env.chars.isdigit = true ∧
            IpAddress.ofString (addressText n) = some (version n)) ∧
        NamesApart env ((interval a.toNat b.toNat).map addressText) := by
  have hrange : isRange env (s ++ "-" ++ t) = true := by rw [isRange_range hs, hletter]; rfl
  have hread : ∀ texts, range2ips env [s ++ "-" ++ t] = .ok texts ↔
      ('-' ∉ s.toList ∧ '-' ∉ t.toList ∧ (IpAddress.ofString (strip env.chars t)).isSome) ∧
        texts = (interval a.toNat b.toNat).map addressText := by
    intro texts
    rw [range2ips_single, expandRange_eq_ok hrange]
    simp only [isRangeOf_range hspace hs ht]
    constructor
    · rintro ⟨_, _, ⟨hok, rfl, rfl⟩, he⟩
      exact ⟨hok, he⟩
    · rintro ⟨hok, he⟩
      exact ⟨a, b, ⟨hok, rfl, rfl⟩, he⟩
  have hcomma : ∀ text ∈ (interval a.toNat b.toNat).map addressText, ',' ∉ text.toList := by
    intro text hm
    obtain ⟨n, -, rfl⟩ := List.mem_map.1 hm
    exact (IpAddress.not_mem_exploded _).1
  have hiff := fun hok => @creates_iff env file _ _ ((interval a.toNat b.toNat).map version)
    (@dash_mem_range s t) (range_not_deletion hs) ((hread _).2 ⟨hok, rfl⟩) hcomma
    (nodup_addressTexts (IpAddress.toNat_lt_of_ofString ht)) (by simp)
  simp only [List.forall_mem_map, List.forall₂_map_left_iff, List.forall₂_map_right_iff,
    List.forall₂_same] at hiff
  constructor
  · intro hcreates
    obtain ⟨cfg, hrun, -⟩ := id hcreates
    obtain ⟨texts, -, hr, -⟩ := (run_single dash_mem_range (range_not_deletion hs)).1 hrun
    have hok := ((hread _).1 hr).1
    obtain ⟨hdigit, happart, haddr⟩ := (hiff hok).1 hcreates
    exact ⟨hok, fun n hn => ⟨hdigit n hn, haddr n hn⟩, happart⟩
  · rintro ⟨hok, hall, happart⟩
    exact (hiff hok).2 ⟨fun n hn => (hall n hn).1, happart, fun n hn => (hall n hn).2⟩

/-- What a creation makes of an argument that starts with a letter, as a name with an ip. -/
theorem nameArgument_creation {arg : String} {hosts : OrdDict String Value} :
    (∃ s', nameArgument { allHosts := .empty, nextHostId := 1 } arg = .ok s' ∧
        hosts = s'.allHosts) ↔
      ∃ name ip rest, split ',' arg = name :: ip :: rest ∧ rest.length ≤ 1 ∧
        hosts.items = [(name, hostOpts (rest.headD ip) ip)] := by
  -- the host that is stored once the variables are set
  have hstored : ∀ name ip accessIp, nameParts { allHosts := .empty, nextHostId := 1 } arg =
        .ok ⟨.empty, 1, some name, some ip, some accessIp⟩ →
      ((∃ s', nameArgument { allHosts := .empty, nextHostId := 1 } arg = .ok s' ∧
          hosts = s'.allHosts) ↔ hosts.items = [(name, hostOpts accessIp ip)]) := by
    intro name ip accessIp h
    have hs' : nameArgument { allHosts := .empty, nextHostId := 1 } arg =
        .ok ⟨OrdDict.empty.insert name (hostOpts accessIp ip), 1, some name, some ip,
          some accessIp⟩ := by
      rw [nameArgument, h]
      rfl
    rw [hs']
    constructor
    · rintro ⟨s', hs', rfl⟩
      cases hs'
      rfl
    · exact fun he => ⟨_, rfl, OrdDict.ext he⟩
  by_cases hcomma : ',' ∈ arg.toList
  · rcases hsplit : split ',' arg with _ | ⟨name, _ | ⟨ip, _ | ⟨accessIp, _ | ⟨_, _⟩⟩⟩⟩
    · simp [nameArgument, nameParts, hcomma, hsplit]
    · simp [nameArgument, nameParts, hcomma, hsplit]
    · rw [hstored name ip ip (by simp only [nameParts, if_pos hcomma, hsplit])]
      simp
    · rw [hstored name ip accessIp (by simp only [nameParts, if_pos hcomma, hsplit])]
      simp
    · simp [nameArgument, nameParts, hcomma, hsplit]
  · have hsplit := split_of_not_mem hcomma
    simp [nameArgument, nameParts, hcomma, hsplit, existsHostname, readLocal]

/-- The loop over one argument that starts with a letter. -/
theorem loop_letter {arg : String} {hosts : OrdDict String Value}
    (hletter : arg.toList.head?.any env.chars.isalpha = true) :
    (∃ s', [arg].foldlM (argument env) { allHosts := .empty, nextHostId := 1 } = .ok s' ∧
        hosts = s'.allHosts) ↔
      ∃ name ip rest, split ',' arg = name :: ip :: rest ∧ rest.length ≤ 1 ∧
        hosts.items = [(name, hostOpts (rest.headD ip) ip)] := by
  rw [← nameArgument_creation, List.foldlM_cons, AddArg.argument_of_letter hletter]
  cases nameArgument { allHosts := .empty, nextHostId := 1 } arg <;> simp

/-- A range that starts with a letter is no range for `range2ips`, and the name of one host for
`build_hostnames`. -/
theorem creates_named (hs : IpAddress.ofString s = some a)
    (hletter : s.toList.head?.any env.chars.isalpha = true) :
    Creates env file (s ++ "-" ++ t) addresses ↔
      ∃ name ip rest address, split ',' (s ++ "-" ++ t) = name :: ip :: rest ∧ rest.length ≤ 1 ∧
        IpAddress.ofString ip = some address ∧ addresses = [address] := by
  have hr : range2ips env [s ++ "-" ++ t] = .ok [s ++ "-" ++ t] := by
    refine range2ips_eq_self fun host hm => ?_
    rw [List.mem_singleton.1 hm, isRange_range hs, hletter]
    rfl
  have hhead : (s ++ "-" ++ t).toList.head?.any env.chars.isalpha = true := by
    rw [String.append_assoc]
    exact AddArg.head?_append hletter
  have haddr : ∀ (hosts : List (String × Value)) name accessIp ip,
      hosts = [(name, hostOpts accessIp ip)] → (HaveAddresses hosts addresses ↔
        ∃ address, IpAddress.ofString ip = some address ∧ addresses = [address]) := by
    rintro _ name accessIp ip rfl
    rw [HaveAddresses, List.forall₂_cons_left_iff]
    simp
  constructor
  · rintro ⟨cfg, hrun, hhosts⟩
    obtain ⟨changed, s', hr', hloop, rfl⟩ :=
      (run_single dash_mem_range (range_not_deletion hs)).1 hrun
    rw [hr] at hr'
    cases hr'
    rw [hostsOf_toValue, Inventory.fresh_place_hosts] at hhosts
    obtain ⟨name, ip, rest, hsplit, hlen, hitems⟩ := (loop_letter hhead).1 ⟨s', hloop, rfl⟩
    obtain ⟨address, hip, he⟩ := (haddr _ _ _ _ hitems).1 hhosts
    exact ⟨name, ip, rest, address, hsplit, hlen, hip, he⟩
  · rintro ⟨name, ip, rest, address, hsplit, hlen, hip, he⟩
    let hosts : OrdDict String Value :=
      ⟨[(name, hostOpts (rest.headD ip) ip)], List.nodup_singleton _⟩
    obtain ⟨s', hloop, hhosts⟩ := (@loop_letter env _ hosts hhead).2
      ⟨name, ip, rest, hsplit, hlen, rfl⟩
    refine ⟨_, (run_single dash_mem_range (range_not_deletion hs)).2 ⟨_, s', hr, hloop, rfl⟩, ?_⟩
    rw [hostsOf_toValue, Inventory.fresh_place_hosts, ← hhosts]
    exact (haddr _ name (rest.headD ip) ip rfl).2 ⟨address, hip, he⟩

end

example : run {} ["fe80::1-fe80::5"] .absent = (.error (.unboundLocalError "ip"), .absent) := rfl

/-! ## The printed addresses of an interval -/

section
variable {env : Env} {x y n : Nat}

/-- A printed IPv4 address starts with a digit. -/
theorem addressText_digit_v4 (h : n < 2 ^ 32) :
    (addressText n).toList.head?.any env.chars.isdigit = true := by
  rw [addressText, if_pos h]
  exact (AddArg.ipv4_text env (IpAddress.parse4_exploded h)).2.2

/-- A printed IPv6 address starts with a digit iff its highest digit is no letter. -/
theorem addressText_digit_v6 (h : 2 ^ 32 ≤ n) (hn : n < 2 ^ 128) :
    (addressText n).toList.head?.any env.chars.isdigit = true ↔ n < 10 * 2 ^ 124 := by
  have hdigit : ∀ d < 16, (Nat.digitChar d).toNat < 128 ∧
      ((Nat.digitChar d).isDigit = true ↔ d < 10) := by
    decide
  obtain ⟨hascii, hiff⟩ := hdigit (n / 2 ^ 124) (by omega)
  rw [addressText, if_neg (by omega), IpAddress.exploded_v6_head n hn, Option.any_some,
    (env.chars.ascii_class _ hascii).1, hiff]
  omega

/-- Every address of an interval of IPv4 addresses is printed as it should be. -/
theorem interval_v4 (hy : y < 2 ^ 32) : ∀ n ∈ interval x y,
    (addressText n).toList.head?.any env.chars.isdigit = true ∧
      IpAddress.ofString (addressText n) = some (.v4 n) := by
  intro n hn
  have hlt : n < 2 ^ 32 := by
    have := (mem_interval.1 hn).2
    omega
  exact ⟨addressText_digit_v4 hlt, by rw [ofString_addressText (by omega), if_pos hlt]⟩

/-- Those of an interval of IPv6 addresses are from 2^32 on, and start with a digit below 10. -/
theorem interval_v6 (hxy : x ≤ y) (hy : y < 2 ^ 128) :
    (∀ n ∈ interval x y, (addressText n).toList.head?.any env.chars.isdigit = true ∧
        IpAddress.ofString (addressText n) = some (.v6 n)) ↔ 2 ^ 32 ≤ x ∧ y < 10 * 2 ^ 124 := by
  have hversion : ∀ n, n < 2 ^ 128 →
      (IpAddress.ofString (addressText n) = some (.v6 n) ↔ 2 ^ 32 ≤ n) := by
    intro n hn
    rw [ofString_addressText hn]
    split
    · next hlt => exact ⟨fun h => (nomatch Option.some.inj h), fun h => absurd hlt (by omega)⟩
    · next hge => exact ⟨fun _ => Nat.le_of_not_lt hge, fun _ => rfl⟩
  constructor
  · intro h
    have hx := (hversion x (by omega)).1 (h x (mem_interval.2 ⟨le_refl _, hxy⟩)).2
    exact ⟨hx, (addressText_digit_v6 (hx.trans hxy) hy).1 (h y (mem_interval.2 ⟨hxy, le_refl _⟩)).1⟩
  · rintro ⟨hx, hdigit⟩ n hn
    obtain ⟨hxn, hny⟩ := mem_interval.1 hn
    exact ⟨(addressText_digit_v6 (by omega) (by omega)).2 (by omega),
      (hversion n (by omega)).2 (by omega)⟩

end

/-! ## Texts of IPv4 addresses -/

section
variable {env : Env} {s : String} {n : Nat}

theorem notLetter_v4 (h : IpAddress.parse4 s = some n) :
    s.toList.head?.any env.chars.isalpha = false := by
  obtain ⟨c, cs, hs, hdigit⟩ := (IpAddress.parse4_text h).2
  have hc := env.chars.isdigit_of_isDigit hdigit
  rw [hs, List.head?_cons, Option.any_some, ← Bool.not_eq_true]
  intro halpha
  rw [env.chars.isdigit_of_isalpha c halpha] at hc
  cases hc

/-- An IPv4 address has no white space. -/
theorem strip_v4 (hspace : ∀ c : Char, c.toNat < 128 → env.chars.isspace c = isAsciiSpace c)
    (h : IpAddress.ofString s = some (.v4 n)) : strip env.chars s = s := by
  obtain ⟨space, he, hblank⟩ := eq_strip_address hspace h
  have hempty : space = "" := by
    rw [← String.toList_eq_nil_iff, List.eq_nil_iff_forall_not_mem]
    intro c hc
    have hmem : c ∈ s.toList := by
      rw [he, String.toList_append]
      exact List.mem_append_right _ hc
    have hrange := IpAddress.parse4_chars (IpAddress.parse4_of_ofString h) c hmem
    have hvisible := hblank c hc
    rw [isspace_eq_false hspace ⟨by omega, hrange.2⟩] at hvisible
    cases hvisible
  rw [hempty, String.append_empty] at he
  exact he.symm

end

/-! ## The ranges that are created -/

/-- How a range of IPv6 addresses must be written to be read as one: it does not start with a
letter, no scope has a dash, and the last address is one without the white space behind it. The
addresses are not so low that their integers stand for IPv4 addresses, nor so high that they are
printed with a letter in front. -/
structure ReadsAsRange (env : Env) (s t : String) (x y : Nat) : Prop where
  notLetter : s.toList.head?.any env.chars.isalpha = false
  noDash : '-' ∉ s.toList ∧ '-' ∉ t.toList
  stripped : (IpAddress.ofString (strip env.chars t)).isSome
  version : 2 ^ 32 ≤ x
  digit : y < 10 * 2 ^ 124

/-- A range of one IPv6 address that starts with a letter, and whose scopes have commas such that
the name and the ip of one host are read from it. -/
structure ReadsAsName (env : Env) (s t : String) (x y : Nat) : Prop where
  letter : s.toList.head?.any env.chars.isalpha = true
  one : x = y
  parts : ∃ name ip rest, split ',' (s ++ "-" ++ t) = name :: ip :: rest ∧ rest.length ≤ 1 ∧
    IpAddress.ofString ip = some (.v6 x)

section
variable {env : Env} {s t : String} {x y : Nat}

/-- A range of IPv4 addresses. -/
theorem creates_v4 (hspace : ∀ c : Char, c.toNat < 128 → env.chars.isspace c = isAsciiSpace c)
    (file : ConfigFile) (hs : IpAddress.ofString s = some (.v4 x))
    (ht : IpAddress.ofString t = some (.v4 y)) :
    Creates env file (s ++ "-" ++ t) ((interval x y).map .v4) ↔
      NamesApart env ((interval x y).map addressText) := by
  have hs₄ := IpAddress.parse4_of_ofString hs
  have ht₄ := IpAddress.parse4_of_ofString ht
  have hiff : Creates env file (s ++ "-" ++ t) ((interval x y).map .v4) ↔ _ :=
    creates_range hspace hs ht (notLetter_v4 hs₄)
  rw [hiff]
  refine ⟨fun h => h.2.2,
    fun happart => ⟨⟨?_, ?_, ?_⟩, interval_v4 (IpAddress.parse4_lt ht₄), happart⟩⟩
  · exact (AddArg.ipv4_text env hs₄).2.1
  · exact (AddArg.ipv4_text env ht₄).2.1
  · rw [strip_v4 hspace ht, ht]
    rfl

/-- A range of IPv6 addresses that does not start with a letter is read as a range. -/
theorem creates_v6_range
    (hspace : ∀ c : Char, c.toNat < 128 → env.chars.isspace c = isAsciiSpace c) (file : ConfigFile)
    (hs : IpAddress.ofString s = some (.v6 x)) (ht : IpAddress.ofString t = some (.v6 y))
    (hxy : x ≤ y) (hletter : s.toList.head?.any env.chars.isalpha = false) :
    Creates env file (s ++ "-" ++ t) ((interval x y).map .v6) ↔
      ReadsAsRange env s t x y ∧ NamesApart env ((interval x y).map addressText) := by
  have hy : y < 2 ^ 128 := IpAddress.toNat_lt_of_ofString ht
  have hiff : Creates env file (s ++ "-" ++ t) ((interval x y).map .v6) ↔ _ :=
    creates_range hspace hs ht hletter
  rw [hiff, show (IpAddress.v6 x).toNat = x from rfl, show (IpAddress.v6 y).toNat = y from rfl,
    interval_v6 hxy hy]
  constructor
  · rintro ⟨⟨hns, hnt, hsome⟩, ⟨hx, hdigit⟩, happart⟩
    exact ⟨⟨hletter, ⟨hns, hnt⟩, hsome, hx, hdigit⟩, happart⟩
  · rintro ⟨⟨-, ⟨hns, hnt⟩, hsome, hx, hdigit⟩, happart⟩
    exact ⟨⟨hns, hnt, hsome⟩, ⟨hx, hdigit⟩, happart⟩

/-- One that starts with a letter is read as a name. -/
theorem creates_v6_name (file : ConfigFile) (hs : IpAddress.ofString s = some (.v6 x)) (hxy : x ≤ y)
    (hletter : s.toList.head?.any env.chars.isalpha = true) :
    Creates env file (s ++ "-" ++ t) ((interval x y).map .v6) ↔ ReadsAsName env s t x y := by
  rw [creates_named hs hletter]
  constructor
  · rintro ⟨name, ip, rest, address, hsplit, hlen, hip, he⟩
    have hone := congrArg List.length he
    rw [List.length_map, interval, List.length_range', List.length_singleton] at hone
    obtain rfl : x = y := by omega
    rw [interval_self] at he
    cases he
    exact ⟨hletter, rfl, name, ip, rest, hsplit, hlen, hip⟩
  · rintro ⟨-, rfl, name, ip, rest, hsplit, hlen, hip⟩
    exact ⟨name, ip, rest, .v6 x, hsplit, hlen, hip, by rw [interval_self]; rfl⟩

end

/-- A creation with a range of IPv4 addresses has the hosts of the interval iff their names are
apart. With a range of IPv6 addresses it has them iff also the range is read as one, or read as the
name of the only host. And the arguments that are no ranges stay what and where they are iff none of
them is taken for a range. -/
theorem ranges_iff {env : Env}
    (hspace : ∀ c : Char, c.toNat < 128 → env.chars.isspace c = isAsciiSpace c)
    (file : ConfigFile) :
    (∀ s t x y, IpAddress.ofString s = some (.v4 x) → IpAddress.ofString t = some (.v4 y) → x ≤ y →
      (Creates env file (s ++ "-" ++ t) ((interval x y).map .v4) ↔
        NamesApart env ((interval x y).map addressText))) ∧
    (∀ s t x y, IpAddress.ofString s = some (.v6 x) → IpAddress.ofString t = some (.v6 y) → x ≤ y →
      (Creates env file (s ++ "-" ++ t) ((interval x y).map .v6) ↔
        (ReadsAsRange env s t x y ∧ NamesApart env ((interval x y).map addressText)) ∨
          ReadsAsName env s t x y)) ∧
    ∀ args, (∃ parts : List (List String), range2ips env args = .ok parts.flatten ∧
        List.Forall₂ (fun arg part => (¬ ∃ a b, IsRangeOf env arg a b) → part = [arg]) args parts) ↔
      ∀ arg ∈ args, isRange env arg = true → ∃ a b, IsRangeOf env arg a b := by
  refine ⟨fun s t x y hs ht _ => creates_v4 hspace file hs ht, fun s t x y hs ht hxy => ?_,
    range2ips_parts⟩
  cases hletter : s.toList.head?.any env.chars.isalpha with
  | false =>
    rw [creates_v6_range hspace file hs ht hxy hletter, or_iff_left]
    intro hname
    rw [hname.letter] at hletter
    cases hletter
  | true =>
    rw [creates_v6_name file hs hxy hletter, or_iff_right]
    intro hrange
    rw [hrange.1.notLetter] at hletter
    cases hletter

/-- Three IPv4 addresses, and two IPv6 addresses that start with a digit. -/
theorem ranges_iff_two_versions :
    Creates {} .absent "10.0.0.1-10.0.0.3" [.v4 167772161, .v4 167772162, .v4 167772163] ∧
      Creates {} .absent "2001:db8::1-2001:db8::2"
        [.v6 42540766411282592856903984951653826561,
          .v6 42540766411282592856903984951653826562] := by
  have hranges := @ranges_iff {} (fun _ _ => rfl) .absent
  constructor
  · have hiff :=
        hranges.1 "10.0.0.1" "10.0.0.3" 167772161 167772163 (by decide) (by decide) (by decide)
    refine hiff.2 (namesApart_generated rfl (by decide) (List.forall_mem_map.2 fun n hn => ?_))
    exact (interval_v4 (by decide) n hn).1
  · have hiff := hranges.2.1 "2001:db8::1" "2001:db8::2" 42540766411282592856903984951653826561
      42540766411282592856903984951653826562 (by decide) (by decide) (by decide)
    have hread : ReadsAsRange {} "2001:db8::1" "2001:db8::2" 42540766411282592856903984951653826561
        42540766411282592856903984951653826562 :=
      ⟨by decide, by decide, by decide, by decide, by decide⟩
    refine hiff.2 (.inl ⟨hread, namesApart_generated rfl (by decide) ?_⟩)
    refine List.forall_mem_map.2 fun n hn => ?_
    exact ((interval_v6 (by decide) (by decide)).2 ⟨by decide, by decide⟩ n hn).1

/-- The integers from 1 to 5 stand for IPv4 addresses. -/
theorem ranges_fail : ¬ ((∀ s t x y, IpAddress.ofString s = some (.v4 x) →
      IpAddress.ofString t = some (.v4 y) → x ≤ y →
      Creates {} .absent (s ++ "-" ++ t) ((interval x y).map .v4)) ∧
    ∀ s t x y, IpAddress.ofString s = some (.v6 x) → IpAddress.ofString t = some (.v6 y) → x ≤ y →
      Creates {} .absent (s ++ "-" ++ t) ((interval x y).map .v6)) := by
  rintro ⟨-, h⟩
  have hfirst : IpAddress.ofString "::1" = some (.v6 1) := by decide
  have hlast : IpAddress.ofString "::5" = some (.v6 5) := by decide
  have hcreates := h "::1" "::5" 1 5 hfirst hlast (by decide)
  have hall := ((creates_range (fun _ _ => rfl) hfirst hlast (by decide)).1 hcreates).2.1
  have hread := (hall 1 (mem_interval.2 ⟨le_refl _, by decide⟩)).2
  exact absurd hread (by decide)

end Kubespray
