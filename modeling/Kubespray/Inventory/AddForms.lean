import Kubespray.Inventory.HostList

/-!
# Arguments that add a host

`AddArg` is an argument in one of the four documented forms, with the proof that its text reads
back as this form. For such arguments an iteration of `build_hostnames` never fails, and its effect
is the pure function `AddArg.add` on the host list and the next id (`argument_text`). For arguments
that are addresses the whole loop appends the generated hosts for the new ips (`adds_newArgs`).
-/

namespace Kubespray

open Py

/-! ## Generated names and their ids -/

/-- The name of the `id`th generated host. -/
def generatedName (env : Env) (id : Nat) : String := env.hostPrefix ++ toString id

section
variable {env : Env} {names : List String} {name : String}

/-- The search for the highest id returns a bound of the ids it reads, which is one of them or
the id it starts from. -/
theorem foldlM_scanId_eq_ok {n highest : Nat} (h : names.foldlM (scanId env) n = .ok highest) :
    n ≤ highest ∧
      (∀ name ∈ names, startsWith name env.hostPrefix = true →
        ∃ id, getHostId env name = .ok id ∧ id ≤ highest) ∧
      (highest = n ∨ ∃ name ∈ names, startsWith name env.hostPrefix = true ∧
        getHostId env name = .ok highest) := by
  induction names generalizing n with
  | nil =>
    cases h
    exact ⟨le_refl _, by simp, .inl rfl⟩
  | cons k names ih =>
    rw [List.foldlM_cons, bind_eq_ok] at h
    obtain ⟨m, hm, h⟩ := h
    obtain ⟨hle, hall, hone⟩ := ih h
    have hone' : m = n ∨ startsWith k env.hostPrefix = true ∧ getHostId env k = .ok m →
        highest = n ∨
        ∃ name ∈ k :: names, startsWith name env.hostPrefix = true ∧
          getHostId env name = .ok highest := by
      intro hk
      rcases hone with rfl | ⟨name, hn, hid⟩
      · exact hk.imp_right fun hk => ⟨k, .head _, hk⟩
      · exact .inr ⟨name, .tail _ hn, hid⟩
    unfold scanId at hm
    split at hm
    · next hk =>
      rw [bind_eq_ok] at hm
      obtain ⟨id, hid, hm⟩ := hm
      cases hm
      split at hle
      · next hgt =>
        rw [if_pos hgt] at hone'
        refine ⟨by omega, ?_, hone' (.inr ⟨hk, hid⟩)⟩
        intro name hn hp
        rcases List.mem_cons.1 hn with rfl | hn
        · exact ⟨id, hid, hle⟩
        · exact hall name hn hp
      · next hgt =>
        rw [if_neg hgt] at hone'
        refine ⟨hle, ?_, hone' (.inl rfl)⟩
        intro name hn hp
        rcases List.mem_cons.1 hn with rfl | hn
        · exact ⟨id, hid, by omega⟩
        · exact hall name hn hp
    · next hp =>
      cases hm
      refine ⟨hle, ?_, hone' (.inl rfl)⟩
      intro name hn hp'
      rcases List.mem_cons.1 hn with rfl | hn
      · exact absurd hp' hp
      · exact hall name hn hp'

/-- The search succeeds if every name that starts with `HOST_PREFIX` has an id. -/
theorem exists_foldlM_scanId {n : Nat}
    (h : ∀ name ∈ names, startsWith name env.hostPrefix = true →
      ∃ id, getHostId env name = .ok id) :
    ∃ highest, names.foldlM (scanId env) n = .ok highest := by
  induction names generalizing n with
  | nil => exact ⟨n, rfl⟩
  | cons k names ih =>
    have hk : ∃ m, scanId env n k = .ok m := by
      unfold scanId
      split
      · next hp =>
        obtain ⟨id, hid⟩ := h k (.head _) hp
        exact ⟨_, by rw [hid]; rfl⟩
      · exact ⟨n, rfl⟩
    obtain ⟨m, hm⟩ := hk
    obtain ⟨highest, hh⟩ := ih (n := m) fun name hn => h name (.tail _ hn)
    exact ⟨highest, by rw [List.foldlM_cons, hm, ok_bind, hh]⟩

/-- The search for the highest id fails exactly on a name that starts with `HOST_PREFIX` and has
no id. -/
theorem highestHostId_isOk :
    (∃ highest, highestHostId env names = .ok highest) ↔
      ∀ name ∈ names, startsWith name env.hostPrefix = true →
        ∃ id, getHostId env name = .ok id := by
  constructor
  · rintro ⟨highest, h⟩ name hn hp
    obtain ⟨id, hid, -⟩ := (foldlM_scanId_eq_ok h).2.1 name hn hp
    exact ⟨id, hid⟩
  · exact exists_foldlM_scanId

/-- With a prefix that has no dot, the id of a generated name is read from the digits at its end:
those the prefix ends in, and those of its number. -/
theorem getHostId_generatedName (hdot : '.' ∉ env.hostPrefix.toList) (id : Nat) :
    getHostId env (generatedName env id) =
      .ok (env.chars.toNat
        (env.hostPrefix.toList.rtakeWhile (fun c => (env.chars.decimal c).isSome) ++
          Nat.toDigits 10 id)) := by
  have hnd : '.' ∉ (generatedName env id).toList := by
    rw [generatedName, String.toList_append, List.mem_append, not_or]
    exact ⟨hdot, not_mem_toString (by decide) id⟩
  have hdigits : env.chars.trailingDigits (generatedName env id) = _ :=
    trailingDigits_append_repr env.hostPrefix id
  -- the equations of `getHostId` are slow to make
  delta getHostId
  simp only [split_of_not_mem hnd, List.headD_cons, hdigits]
  rfl

/-- It is at least that number. -/
theorem le_getHostId_generatedName (hdot : '.' ∉ env.hostPrefix.toList) {id hostId : Nat}
    (h : getHostId env (generatedName env id) = .ok hostId) : id ≤ hostId := by
  rw [getHostId_generatedName hdot, toNat_append_toDigits] at h
  cases h
  exact Nat.le_add_left _ _

/-- It is that number if the prefix does not end in a digit. -/
theorem getHostId_generatedName_eq (hdot : '.' ∉ env.hostPrefix.toList)
    (hdigit : ∀ c, env.hostPrefix.toList.getLast? = some c → env.chars.decimal c = none)
    (id : Nat) :
    getHostId env (generatedName env id) = .ok id := by
  have hr : env.hostPrefix.toList.rtakeWhile (fun c => (env.chars.decimal c).isSome) = [] := by
    refine List.rtakeWhile_eq_nil_iff.2 fun hne => ?_
    rw [hdigit _ (List.getLast?_eq_some_getLast hne)]
    decide
  rw [getHostId_generatedName hdot, hr, toNat_append_toDigits]
  simp [CharTable.toNat]

theorem generatedName_injective {i j : Nat} (h : generatedName env i = generatedName env j) :
    i = j := append_toString_injective h

/-- The last character of a generated name is a digit. -/
theorem generatedName_getLast_ne {c : Char} (hc : c.isDigit = false) {i : Nat} :
    (generatedName env i).toList.getLast? ≠ some c := by
  intro h
  rw [generatedName, String.toList_append, Nat.toString_eq_repr, Nat.toList_repr,
    List.getLast?_append_of_ne_nil _ Nat.toDigits_ne_nil] at h
  have hd := Nat.isDigit_of_mem_toDigits (by decide) (by decide) (List.mem_of_getLast? h)
  rw [hc] at hd
  cases hd

/-- A number above the highest id gives a new name. -/
theorem generatedName_not_mem (hdot : '.' ∉ env.hostPrefix.toList) {highest id : Nat}
    (h : highestHostId env names = .ok highest) (hid : highest < id) :
    generatedName env id ∉ names := by
  intro hm
  obtain ⟨hostId, hh, hle⟩ := (foldlM_scanId_eq_ok h).2.1 _ hm (startsWith_append _ _)
  exact absurd (le_getHostId_generatedName hdot hh) (by omega)

end

/-! ## The four forms -/

/-- An argument `ip`, `ip,access_ip`, `name,ip` or `name,ip,access_ip`. -/
structure AddArg (env : Env) where
  name : Option String
  ip : String
  access : Option String
  name_noComma : ∀ n, name = some n → ',' ∉ n.toList
  ip_noComma : ',' ∉ ip.toList
  access_noComma : ∀ a, access = some a → ',' ∉ a.toList
  /-- A name starts with a letter. -/
  name_first : ∀ n, name = some n → n.toList.head?.any env.chars.isalpha = true
  /-- Without a name, the ip starts with a digit. -/
  ip_first : name = none → ip.toList.head?.any env.chars.isdigit = true

namespace AddArg
variable {env : Env}

/-- The text of the argument. -/
def text (a : AddArg env) : String :=
  match a.name, a.access with
  | none, none => a.ip
  | none, some access => a.ip ++ "," ++ access
  | some name, none => name ++ "," ++ a.ip
  | some name, some access => name ++ "," ++ (a.ip ++ "," ++ access)

/-- The access ip, by default the ip. -/
def accessIp (a : AddArg env) : String := a.access.getD a.ip

/-- The options that the argument gives to its host. -/
def opts (a : AddArg env) : Value := hostOpts a.accessIp a.ip

/-- The name that the argument gives to its host when `id` is the next id. -/
def hostname (a : AddArg env) (id : Nat) : String := a.name.getD (generatedName env id)

/-- The next id after a host was stored. -/
def nextId (a : AddArg env) (id : Nat) : Nat := if a.name.isSome then id else id + 1

/-- Whether the argument is skipped, because its text is a host name or its ip is taken. -/
def skipped (a : AddArg env) (hosts : OrdDict String Value) : Bool :=
  existsHostname hosts a.text || carriesIp hosts a.ip

/-- The effect of the argument on the host list and the next id. -/
def add (r : OrdDict String Value × Nat) (a : AddArg env) : OrdDict String Value × Nat :=
  if a.skipped r.1 then r else (r.1.insert (a.hostname r.2) a.opts, a.nextId r.2)

/-- The effect of a list of arguments. -/
def adds (args : List (AddArg env)) (r : OrdDict String Value × Nat) : OrdDict String Value × Nat :=
  args.foldl add r

theorem split_two {s t : String} (hs : ',' ∉ s.toList) (ht : ',' ∉ t.toList) :
    split ',' (s ++ "," ++ t) = [s, t] := by
  have h := split_append (t := t) hs
  rw [split_of_not_mem ht] at h
  exact h

theorem split_three {s t u : String} (hs : ',' ∉ s.toList) (ht : ',' ∉ t.toList)
    (hu : ',' ∉ u.toList) : split ',' (s ++ "," ++ (t ++ "," ++ u)) = [s, t, u] := by
  have h := split_append (t := t ++ "," ++ u) hs
  rw [split_two ht hu] at h
  exact h

theorem comma_mem (s t : String) : ',' ∈ (s ++ "," ++ t).toList := by
  simp [String.toList_append]

/-- An argument without a name reads as its ip and its access ip. -/
theorem ipParts_text (a : AddArg env) (h : a.name = none) :
    ipParts a.text = .ok (a.ip, a.accessIp) := by
  cases hacc : a.access with
  | none =>
    simp only [text, h, hacc, ipParts, if_neg a.ip_noComma, accessIp, Option.getD_none]
  | some access =>
    simp only [text, h, hacc, ipParts, if_pos (comma_mem _ _), accessIp, Option.getD_some,
      split_two a.ip_noComma (a.access_noComma _ hacc)]

/-- An argument with a name sets the three variables. -/
theorem nameParts_text (a : AddArg env) {name : String} (h : a.name = some name) (s : Locals) :
    nameParts s a.text = .ok { s with
      hostname := some name, ip := some a.ip, accessIp := some a.accessIp } := by
  cases hacc : a.access with
  | none =>
    simp only [text, h, hacc, nameParts, if_pos (comma_mem _ _), accessIp, Option.getD_none,
      split_two (a.name_noComma _ h) a.ip_noComma]
  | some access =>
    simp only [text, h, hacc, nameParts, if_pos (comma_mem _ _), accessIp, Option.getD_some,
      split_three (a.name_noComma _ h) a.ip_noComma (a.access_noComma _ hacc)]

/-- Text whose first character passes a test may be followed by anything. -/
theorem head?_append {p : Char → Bool} {s t : String} (h : s.toList.head?.any p = true) :
    (s ++ t).toList.head?.any p = true := by
  rw [String.toList_append]
  cases hs : s.toList with
  | nil => rw [hs] at h; cases h
  | cons c cs => rw [hs] at h; exact h

/-- Without a name, the text starts with a digit. -/
theorem text_first_digit (a : AddArg env) (h : a.name = none) :
    a.text.toList.head?.any env.chars.isdigit = true := by
  have hf := a.ip_first h
  cases hacc : a.access with
  | none => simpa only [text, h, hacc] using hf
  | some access =>
    simp only [text, h, hacc, String.append_assoc]
    exact head?_append hf

/-- With a name, the text starts with a letter. -/
theorem text_first_letter (a : AddArg env) {name : String} (h : a.name = some name) :
    a.text.toList.head?.any env.chars.isalpha = true := by
  have hf := a.name_first name h
  cases hacc : a.access with
  | none =>
    simp only [text, h, hacc, String.append_assoc]
    exact head?_append hf
  | some access =>
    simp only [text, h, hacc, String.append_assoc]
    exact head?_append hf

/-! ## One argument -/

/-- An address argument is given to the branch for addresses. -/
theorem argument_of_digit {host : String} (h : host.toList.head?.any env.chars.isdigit = true)
    (s : Locals) : argument env s host = ipArgument env s host := by
  unfold argument
  cases hl : host.toList with
  | nil => rw [hl] at h; cases h
  | cons c cs =>
    have hc : env.chars.isdigit c = true := by simpa [hl] using h
    have hdash : c ≠ '-' := CharTable.ne_of_isdigit hc (by decide) (by decide)
    simp [hdash, hc]

/-- An argument that starts with a letter is given to the branch for names. -/
theorem argument_of_letter {host : String} (h : host.toList.head?.any env.chars.isalpha = true)
    (s : Locals) : argument env s host = nameArgument s host := by
  unfold argument
  cases hl : host.toList with
  | nil => rw [hl] at h; cases h
  | cons c cs =>
    have hc : env.chars.isalpha c = true := by simpa [hl] using h
    have hdash : c ≠ '-' := CharTable.ne_of_isalpha hc (by decide) (by decide)
    simp [hdash, hc, env.chars.isdigit_of_isalpha c hc]

/-- After an address argument there is a host: the argument is skipped only for one that is
there. -/
theorem ipArgument_size_pos {s s' : Locals} {host : String} (h : ipArgument env s host = .ok s') :
    0 < s'.allHosts.size := by
  rw [ipArgument, bind_eq_ok] at h
  obtain ⟨⟨ip, accessIp⟩, -, h⟩ := h
  dsimp only at h
  split at h
  · next hex =>
    cases h
    obtain ⟨p, hp, -⟩ := List.mem_map.1 (of_decide_eq_true hex)
    exact List.length_pos_of_mem hp
  · rw [bind_eq_ok] at h
    obtain ⟨b, hb, h⟩ := h
    cases b with
    | true =>
      cases h
      obtain ⟨p, hp, -⟩ := carriesIp_iff.1 (carriesIp_of_existsIp_true hb)
      exact List.length_pos_of_mem hp
    | false =>
      simp only [Bool.false_eq_true, if_false, bind_eq_ok] at h
      obtain ⟨⟨name, id⟩, -, h⟩ := h
      cases h
      have hm : name ∈ (s.allHosts.insert name (hostOpts accessIp ip)).keys := by simp
      rw [← OrdDict.length_keys]
      exact List.length_pos_of_mem hm

/-- When every host has an ip and names are generated, an argument has the effect `AddArg.add`. -/
theorem argument_text (hreal : env.useRealHostname = false) (a : AddArg env) {s : Locals}
    (hs : HasIps s.allHosts) :
    ∃ s', argument env s a.text = .ok s' ∧
      (s'.allHosts, s'.nextHostId) = a.add (s.allHosts, s.nextHostId) := by
  have hex := existsIp_eq hs a.ip
  cases hn : a.name with
  | none =>
    rw [argument_of_digit (a.text_first_digit hn), ipArgument, a.ipParts_text hn, ok_bind]
    simp only [hex, ok_bind, pure_eq_ok, nextHost, hreal, Bool.false_eq_true, if_false, add,
      skipped, hostname, hn, Option.getD_none, nextId, Option.isSome_none, generatedName, opts]
    cases existsHostname s.allHosts a.text <;> cases carriesIp s.allHosts a.ip <;> simp
  | some name =>
    rw [argument_of_letter (a.text_first_letter hn), nameArgument, a.nameParts_text hn, ok_bind]
    simp only [readLocal, hex, ok_bind, pure_eq_ok, add, skipped, hostname, hn, Option.getD_some,
      nextId, Option.isSome_some, if_true, opts]
    cases existsHostname s.allHosts a.text <;> cases carriesIp s.allHosts a.ip <;> simp

/-- The loop over arguments in these forms. -/
theorem loop_text (hreal : env.useRealHostname = false) (args : List (AddArg env)) {s : Locals}
    (hs : HasIps s.allHosts) :
    ∃ s', (args.map text).foldlM (argument env) s = .ok s' ∧
      (s'.allHosts, s'.nextHostId) = adds args (s.allHosts, s.nextHostId) := by
  induction args generalizing s with
  | nil => exact ⟨s, rfl, rfl⟩
  | cons a args ih =>
    obtain ⟨s₁, h₁, he₁⟩ := argument_text hreal a hs
    obtain ⟨s', h', he'⟩ := ih ((argument_change h₁).1.hasIps hs)
    refine ⟨s', ?_, ?_⟩
    · rw [List.map_cons, List.foldlM_cons, h₁, ok_bind, h']
    · rw [he', he₁]
      rfl

/-! ## Addresses with distinct ips -/

/-- The argument is one address: it gives no name, and it is no range of addresses. -/
structure IsAddress (a : AddArg env) : Prop where
  name : a.name = none
  noRange : '-' ∉ a.text.toList

/-- The argument `ip`. -/
def ofIp (env : Env) (ip : String) (hcomma : ',' ∉ ip.toList)
    (hfirst : ip.toList.head?.any env.chars.isdigit = true) : AddArg env where
  name := none
  ip := ip
  access := none
  name_noComma := nofun
  ip_noComma := hcomma
  access_noComma := nofun
  name_first := nofun
  ip_first _ := hfirst

/-- Whether a text is one address by itself: it has no comma, it is no range, and it starts with a
digit. -/
def IsAddressText (env : Env) (ip : String) : Prop :=
  ',' ∉ ip.toList ∧ '-' ∉ ip.toList ∧ ip.toList.head?.any env.chars.isdigit = true

instance (env : Env) (ip : String) : Decidable (IsAddressText env ip) :=
  inferInstanceAs (Decidable (_ ∧ _ ∧ _))

/-- The arguments that are these texts. -/
def ofIps (env : Env) (ips : List String) (h : ∀ ip ∈ ips, IsAddressText env ip) :
    List (AddArg env) :=
  ips.pmap (fun ip hip => ofIp env ip hip.1 hip.2.2) h

section
variable {ips : List String} {h : ∀ ip ∈ ips, IsAddressText env ip}

theorem ofIps_isAddress : ∀ a ∈ ofIps env ips h, a.IsAddress := by
  intro a ha
  obtain ⟨ip, hip, rfl⟩ := List.mem_pmap.1 ha
  exact ⟨rfl, (h ip hip).2.1⟩

@[simp] theorem map_ip_ofIps : (ofIps env ips h).map ip = ips := by
  simp [ofIps, List.map_pmap, ofIp]

@[simp] theorem length_ofIps : (ofIps env ips h).length = ips.length := List.length_pmap

theorem ofIps_ne_nil (hne : ips ≠ []) : ofIps env ips h ≠ [] := by
  simpa [ofIps] using hne

end

/-- An IPv4 address is such a text. -/
theorem ipv4_text (env : Env) {ip : String} {n : Nat} (h : IpAddress.parse4 ip = some n) :
    IsAddressText env ip := by
  obtain ⟨hall, c, cs, hl, hc⟩ := IpAddress.parse4_text h
  refine ⟨fun hm => ?_, fun hm => ?_, ?_⟩
  · exact absurd (hall _ hm) (by decide)
  · exact absurd (hall _ hm) (by decide)
  · rw [hl]
    exact env.chars.isdigit_of_isDigit hc

/-- With a prefix that starts with a letter, what starts with a digit is not spelled like a
generated name. -/
theorem ne_generatedName {text : String} (hd : text.toList.head?.any env.chars.isdigit = true)
    (hp : env.hostPrefix.toList.head?.any env.chars.isalpha = true) (i : Nat) :
    text ≠ generatedName env i := by
  intro he
  have hl : (generatedName env i).toList.head?.any env.chars.isalpha = true := head?_append hp
  rw [← he] at hl
  cases hh : text.toList.head? with
  | none => rw [hh] at hd; cases hd
  | some c =>
    rw [hh] at hd hl
    have := env.chars.isdigit_of_isalpha c hl
    rw [show env.chars.isdigit c = true from hd] at this
    cases this

theorem text_ne_generatedName {a : AddArg env} (ha : a.name = none)
    (hp : env.hostPrefix.toList.head?.any env.chars.isalpha = true) (i : Nat) :
    a.text ≠ generatedName env i := ne_generatedName (a.text_first_digit ha) hp i

/-- The hosts that a list of addresses is given, with ids from `id` on. -/
def generatedHosts : Nat → List (AddArg env) → List (String × Value)
  | _, [] => []
  | id, a :: args => (generatedName env id, a.opts) :: generatedHosts (id + 1) args

/-- Their names are numbered in order. -/
theorem keys_generatedHosts (id : Nat) (args : List (AddArg env)) :
    Assoc.keys (generatedHosts id args) =
      (List.range' id args.length).map (generatedName env) := by
  induction args generalizing id with
  | nil => rfl
  | cons a args ih =>
    rw [generatedHosts, Assoc.keys_cons, ih, List.length_cons, List.range'_succ, List.map_cons]

theorem length_generatedHosts (id : Nat) (args : List (AddArg env)) :
    (generatedHosts id args).length = args.length := by
  rw [← Assoc.length_keys, keys_generatedHosts, List.length_map, List.length_range']

/-- Each of them has the options of its address. -/
theorem opts_of_mem_generatedHosts {id : Nat} {args : List (AddArg env)} {p : String × Value}
    (h : p ∈ generatedHosts id args) : ∃ a ∈ args, p.2 = a.opts := by
  induction args generalizing id with
  | nil => cases h
  | cons a args ih =>
    rw [generatedHosts] at h
    rcases List.mem_cons.1 h with rfl | h
    · exact ⟨a, .head _, rfl⟩
    · obtain ⟨b, hb, he⟩ := ih h
      exact ⟨b, .tail _ hb, he⟩

/-- One list of addresses after another. -/
theorem generatedHosts_append (id : Nat) (args args' : List (AddArg env)) :
    generatedHosts id (args ++ args') =
      generatedHosts id args ++ generatedHosts (id + args.length) args' := by
  induction args generalizing id with
  | nil => rfl
  | cons a args ih =>
    rw [List.cons_append, generatedHosts, ih, generatedHosts, List.length_cons, List.cons_append,
      Nat.add_right_comm, Nat.add_assoc]

/-- The first arguments with each ip that no host carries. -/
def newArgs (hosts : OrdDict String Value) : List (AddArg env) → List (AddArg env)
  | [] => []
  | a :: args =>
    if carriesIp hosts a.ip then newArgs hosts args
    else a :: (newArgs hosts args).filter fun b => b.ip ≠ a.ip

/-- Distinct ips that no host carries are all new. -/
theorem newArgs_eq_self {hosts : OrdDict String Value} {args : List (AddArg env)}
    (hips : (args.map ip).Nodup) (hnew : ∀ a ∈ args, carriesIp hosts a.ip = false) :
    newArgs hosts args = args := by
  induction args with
  | nil => rfl
  | cons a args ih =>
    rw [List.map_cons, List.nodup_cons] at hips
    rw [newArgs, hnew a (.head _), ih hips.2 fun b hb => hnew b (.tail _ hb)]
    refine congrArg (a :: ·) (List.filter_eq_self.2 fun b hb => decide_eq_true fun he => ?_)
    exact hips.1 (he ▸ List.mem_map_of_mem hb)

/-- Once a host carries an ip, it is not new any more. -/
theorem newArgs_insert {hosts hosts' : OrdDict String Value} {ip : String}
    (h : ∀ ip', carriesIp hosts' ip' = (carriesIp hosts ip' || ip == ip'))
    (args : List (AddArg env)) :
    newArgs hosts' args = (newArgs hosts args).filter fun b => b.ip ≠ ip := by
  induction args with
  | nil => rfl
  | cons a args ih =>
    rw [newArgs, newArgs, ih, h]
    cases carriesIp hosts a.ip with
    | true => simp
    | false =>
      by_cases he : ip = a.ip
      · simp [he]
      · have hne : a.ip ≠ ip := Ne.symm he
        simp [he, hne, Bool.and_comm]

/-- With a new host its ip is carried. -/
theorem carriesIp_insert {hosts : OrdDict String Value} {name : String} (hname : name ∉ hosts.keys)
    (a : AddArg env) (ip' : String) :
    carriesIp (hosts.insert name a.opts) ip' = (carriesIp hosts ip' || a.ip == ip') := by
  have hitems : (hosts.insert name a.opts).items = hosts.items ++ [(name, a.opts)] :=
    Assoc.insert_of_not_mem hname _
  rw [carriesIp, hitems, List.any_append, carriesIp]
  simp [opts]

/-- Addresses whose texts are no host names: the first of each new ip are stored one after the other
under generated names. -/
theorem adds_newArgs (args : List (AddArg env)) (hosts : OrdDict String Value) (id : Nat)
    (hname : ∀ a ∈ args, a.name = none)
    (htext : ∀ a ∈ args, a.text ∉ hosts.keys ∧ ∀ i, a.text ≠ generatedName env i)
    (hfresh : ∀ i, id ≤ i → generatedName env i ∉ hosts.keys) :
    (adds args (hosts, id)).1.items = hosts.items ++ generatedHosts id (newArgs hosts args) ∧
      (adds args (hosts, id)).2 = id + (newArgs hosts args).length := by
  induction args generalizing hosts id with
  | nil => simp [adds, generatedHosts, newArgs]
  | cons a args ih =>
    have hcons : adds (a :: args) (hosts, id) = adds args (a.add (hosts, id)) := rfl
    have hunnamed : existsHostname hosts a.text = false := decide_eq_false (htext a (.head _)).1
    simp only [hcons, newArgs, add, skipped, hunnamed, Bool.false_or]
    cases hcarry : carriesIp hosts a.ip with
    | true =>
      exact ih hosts id (fun b hb => hname b (.tail _ hb)) (fun b hb => htext b (.tail _ hb)) hfresh
    | false =>
      have hnext : generatedName env id ∉ hosts.keys := hfresh id (le_refl _)
      have hstored : a.hostname id = generatedName env id := by
        rw [hostname, hname a (.head _), Option.getD_none]
      have hid : a.nextId id = id + 1 := by simp [nextId, hname a (.head _)]
      have hitems : (hosts.insert (generatedName env id) a.opts).items =
          hosts.items ++ [(generatedName env id, a.opts)] := Assoc.insert_of_not_mem hnext _
      obtain ⟨hi, hn⟩ := ih (hosts.insert (generatedName env id) a.opts) (id + 1)
        (fun b hb => hname b (.tail _ hb))
        (fun b hb => by
          obtain ⟨hold, hgen⟩ := htext b (.tail _ hb)
          exact ⟨by simp [hold, hgen], hgen⟩)
        (fun i hi => by
          have hne : generatedName env i ≠ generatedName env id :=
            fun he => absurd (generatedName_injective he) (by omega)
          simp [hne, hfresh i (by omega)])
      rw [newArgs_insert (carriesIp_insert hnext a)] at hi hn
      simp only [Bool.false_eq_true, if_false, hstored, hid]
      refine ⟨?_, ?_⟩
      · rw [hi, hitems, generatedHosts, List.append_assoc]
        rfl
      · rw [hn, List.length_cons]
        omega

/-- Addresses whose ips are distinct and new, and whose texts are no host names, are stored one
after the other under generated names. -/
theorem adds_generated (args : List (AddArg env)) (hosts : OrdDict String Value) (id : Nat)
    (haddr : ∀ a ∈ args, a.IsAddress) (hips : (args.map ip).Nodup)
    (hnew : ∀ a ∈ args, carriesIp hosts a.ip = false)
    (htext : ∀ a ∈ args, a.text ∉ hosts.keys ∧ ∀ i, a.text ≠ generatedName env i)
    (hfresh : ∀ i, id ≤ i → generatedName env i ∉ hosts.keys) :
    (adds args (hosts, id)).1.items = hosts.items ++ generatedHosts id args ∧
      (adds args (hosts, id)).2 = id + args.length := by
  have h := adds_newArgs args hosts id (fun a ha => (haddr a ha).name) htext hfresh
  rwa [newArgs_eq_self hips hnew] at h

end AddArg

end Kubespray
