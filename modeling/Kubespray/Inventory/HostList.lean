import Kubespray.Inventory.Hostnames

/-!
# What the arguments do to the host list

The facts about `build_hostnames` that everything else uses. `Change` says what one argument can
do to the host list: leave it, delete one host, or store one host under a generated or a given
name. `argument_change` is the inversion lemma of the loop body, and the invariants of the loop
(every host has an ip, no two hosts share one, the next id stays above the ids that were read)
follow from `Change` alone.
-/

namespace Kubespray

open Py

/-! ## The ip of a host -/

/-- Whether the ip of a host with these options is `ip`. -/
def hasIp (opts : Value) (ip : String) : Bool :=
  match getIpFromOpts opts with
  | .ok v => v.isStr ip
  | .error _ => false

/-- Whether a host of the list has the ip `ip`. -/
def carriesIp (hosts : OrdDict String Value) (ip : String) : Bool :=
  hosts.items.any fun p => hasIp p.2 ip

/-- Every host of the list has an ip. -/
def HasIps (hosts : OrdDict String Value) : Prop :=
  ∀ p ∈ hosts.items, ∃ v, getIpFromOpts p.2 = .ok v

/-- The ip of a host, if it has one. -/
def ipOf (opts : Value) : Option Value := (getIpFromOpts opts).toOption

/-- No two hosts of the list share an ip. -/
def IpsDistinct (hosts : OrdDict String Value) : Prop := (hosts.items.map fun p => ipOf p.2).Nodup

section
variable {env : Env} {hosts : OrdDict String Value} {ip accessIp : String} {opts : Value}

theorem hasIp_iff : hasIp opts ip = true ↔ getIpFromOpts opts = .ok (.str ip) := by
  unfold hasIp
  split
  · next v hv => simp [hv]
  · next e he => simp [he]

@[simp] theorem getIpFromOpts_hostOpts : getIpFromOpts (hostOpts accessIp ip) = .ok (.str ip) := by
  simp [getIpFromOpts, hostOpts, Value.contains, Assoc.lookup_cons]

@[simp] theorem hasIp_hostOpts {ip' : String} : hasIp (hostOpts accessIp ip) ip' = (ip == ip') := by
  simp [hasIp, Value.isStr]

theorem ipOf_hostOpts : ipOf (hostOpts accessIp ip) = some (.str ip) := by
  simp [ipOf, Except.toOption]

theorem ipOf_eq_some : ipOf opts = some (.str ip) ↔ hasIp opts ip = true := by
  rw [hasIp_iff, ipOf]
  cases getIpFromOpts opts <;> simp [Except.toOption]

theorem carriesIp_iff : carriesIp hosts ip = true ↔ ∃ p ∈ hosts.items, hasIp p.2 ip = true := by
  simp [carriesIp]

theorem carriesIp_eq_false :
    carriesIp hosts ip = false ↔ ∀ p ∈ hosts.items, hasIp p.2 ip = false := by
  simp [carriesIp]

/-- The hosts that the builder writes have ips. -/
theorem hasIps_of_opts (h : ∀ p ∈ hosts.items, ∃ accessIp ip, p.2 = hostOpts accessIp ip) :
    HasIps hosts := by
  intro p hp
  obtain ⟨accessIp, ip, ho⟩ := h p hp
  exact ⟨.str ip, by rw [ho, getIpFromOpts_hostOpts]⟩

/-- An ip that no host carries is not among the ips of the list. -/
theorem ipOf_not_mem (h : carriesIp hosts ip = false) :
    some (.str ip) ∉ hosts.items.map fun p => ipOf p.2 := by
  intro hm
  obtain ⟨p, hp, he⟩ := List.mem_map.1 hm
  have hno := carriesIp_eq_false.1 h p hp
  rw [ipOf_eq_some.1 he] at hno
  cases hno

/-- With distinct ips, the host that carries an ip is unique. -/
theorem IpsDistinct.eq_of_hasIp {p q : String × Value} (hd : IpsDistinct hosts)
    (hp : p ∈ hosts.items) (hq : q ∈ hosts.items) (hpi : hasIp p.2 ip = true)
    (hqi : hasIp q.2 ip = true) : p = q := by
  refine List.inj_on_of_nodup_map hd hp hq ?_
  rw [ipOf_eq_some.2 hpi, ipOf_eq_some.2 hqi]

/-- The search for an ip finds a host that carries it. -/
theorem hostByIp_eq_some {l : List (String × Value)} {name : String}
    (h : hostByIp l ip = .ok (some name)) : ∃ opts, (name, opts) ∈ l ∧ hasIp opts ip = true := by
  induction l with
  | nil => cases h
  | cons p l ih =>
    obtain ⟨k, o⟩ := p
    rw [hostByIp, bind_eq_ok] at h
    obtain ⟨v, hv, h⟩ := h
    split at h
    · next hs =>
      cases h
      exact ⟨o, .head _, by rw [hasIp, hv]; exact hs⟩
    · obtain ⟨o', hm, hi⟩ := ih h
      exact ⟨o', .tail _ hm, hi⟩

/-- A search that finds nothing has seen no host that carries the ip. -/
theorem hostByIp_eq_none {l : List (String × Value)} (h : hostByIp l ip = .ok none) :
    ∀ p ∈ l, hasIp p.2 ip = false := by
  induction l with
  | nil => simp
  | cons p l ih =>
    obtain ⟨k, o⟩ := p
    rw [hostByIp, bind_eq_ok] at h
    obtain ⟨v, hv, h⟩ := h
    split at h
    · cases h
    · next hs =>
      intro q hq
      rcases List.mem_cons.1 hq with rfl | hq
      · rw [hasIp, hv]
        exact Bool.eq_false_iff.2 hs
      · exact ih h q hq

/-- When every host has an ip, the search finds the first host that carries it. -/
theorem hostByIp_eq {l : List (String × Value)} (hl : ∀ p ∈ l, ∃ v, getIpFromOpts p.2 = .ok v) :
    hostByIp l ip = .ok ((l.find? fun p => hasIp p.2 ip).map Prod.fst) := by
  induction l with
  | nil => rfl
  | cons p l ih =>
    obtain ⟨k, o⟩ := p
    obtain ⟨v, hv⟩ := hl _ (.head _)
    have hh : hasIp o ip = v.isStr ip := by rw [hasIp, hv]
    rw [hostByIp, hv, ok_bind, List.find?_cons, hh]
    cases hs : v.isStr ip with
    | true => simp
    | false => simpa using ih fun q hq => hl q (.tail _ hq)

/-- `exists_ip` on a list in which every host has an ip. -/
theorem existsIp_eq (h : HasIps hosts) (ip : String) :
    existsIp hosts ip = .ok (carriesIp hosts ip) := by
  rw [existsIp, hostByIp_eq h, ok_bind, Option.isSome_map, List.isSome_find?]
  rfl

/-- A search by `exists_ip` that fails has found no host. -/
theorem carriesIp_of_existsIp (h : existsIp hosts ip = .ok false) : carriesIp hosts ip = false := by
  rw [existsIp, bind_eq_ok] at h
  obtain ⟨o, ho, h⟩ := h
  cases o with
  | some k => cases h
  | none => simpa [carriesIp] using hostByIp_eq_none ho

/-- A search by `exists_ip` that succeeds has seen a host that carries the ip. -/
theorem carriesIp_of_existsIp_true (h : existsIp hosts ip = .ok true) :
    carriesIp hosts ip = true := by
  rw [existsIp, bind_eq_ok] at h
  obtain ⟨o, ho, h⟩ := h
  cases o with
  | none => cases h
  | some k =>
    obtain ⟨opts, hm, hi⟩ := hostByIp_eq_some ho
    exact carriesIp_iff.2 ⟨_, hm, hi⟩

end

/-! ## One argument -/

/-- Whether an argument is a deletion. -/
def IsDeletion (host : String) : Prop := host.toList.head? = some '-'

instance (host : String) : Decidable (IsDeletion host) :=
  inferInstanceAs (Decidable (host.toList.head? = some '-'))

/-- Whether an argument gives the name `name` to a host. -/
def Names (env : Env) (host name : String) : Prop :=
  host.toList.head?.any env.chars.isalpha = true ∧ ',' ∈ host.toList ∧
    (split ',' host).head? = some name

/-- What an argument `host` can do in the state `s`. -/
inductive Change (env : Env) (s : Locals) (host : String) (s' : Locals) : Prop
  /-- The host list is left alone. -/
  | kept (hosts : s'.allHosts = s.allHosts) (id : s'.nextHostId = s.nextHostId)
  /-- A deletion hits the host `name`, by its name or by its ip. -/
  | deleted (name : String) (del : IsDeletion host)
      (target : name = tail host ∨
        ∃ opts, (name, opts) ∈ s.allHosts.items ∧ hasIp opts (tail host) = true)
      (hosts : s'.allHosts = s.allHosts.erase name) (id : s'.nextHostId = s.nextHostId)
  /-- An address that no host carries is stored under the name of `nextHost`. -/
  | generated (name ip accessIp : String)
      (digit : host.toList.head?.any env.chars.isdigit = true)
      (parts : ipParts host = .ok (ip, accessIp)) (unnamed : host ∉ s.allHosts.keys)
      (new : carriesIp s.allHosts ip = false)
      (next : nextHost env s.nextHostId accessIp = .ok (name, s'.nextHostId))
      (hosts : s'.allHosts = s.allHosts.insert name (hostOpts accessIp ip))
  /-- An address that no host carries is stored under the name in `hostname`. -/
  | named (name ip accessIp : String) (new : carriesIp s.allHosts ip = false)
      (hostname : s'.hostname = some name)
      (hosts : s'.allHosts = s.allHosts.insert name (hostOpts accessIp ip))
      (id : s'.nextHostId = s.nextHostId)

section
variable {env : Env} {s s' : Locals} {host : String}

/-- The branch of a deletion. -/
theorem deletion_change (hd : IsDeletion host) (h : deletion s (tail host) = .ok s') :
    Change env s host s' ∧ s'.hostname = s.hostname := by
  unfold deletion at h
  split at h
  · cases h
    exact ⟨.deleted (tail host) hd (.inl rfl) rfl rfl, rfl⟩
  · rw [bind_eq_ok] at h
    obtain ⟨b, -, h⟩ := h
    cases b with
    | false =>
      cases h
      exact ⟨.kept rfl rfl, rfl⟩
    | true =>
      simp only [if_true, deleteHostByIp, bind_eq_ok] at h
      obtain ⟨d, ⟨o, ho, hd'⟩, h⟩ := h
      cases h
      cases o with
      | none => cases hd'
      | some name =>
        cases hd'
        exact ⟨.deleted name hd (.inr (hostByIp_eq_some ho)) rfl rfl, rfl⟩

/-- The branch of an address. -/
theorem ipArgument_change (hdigit : host.toList.head?.any env.chars.isdigit = true)
    (h : ipArgument env s host = .ok s') : Change env s host s' ∧ s'.hostname = s.hostname := by
  rw [ipArgument, bind_eq_ok] at h
  obtain ⟨⟨ip, accessIp⟩, hparts, h⟩ := h
  dsimp only at h
  split at h
  · cases h
    exact ⟨.kept rfl rfl, rfl⟩
  · next hex =>
    have hunnamed : host ∉ s.allHosts.keys := fun hm => hex (decide_eq_true hm)
    rw [bind_eq_ok] at h
    obtain ⟨b, hb, h⟩ := h
    cases b with
    | true =>
      cases h
      exact ⟨.kept rfl rfl, rfl⟩
    | false =>
      simp only [Bool.false_eq_true, if_false, bind_eq_ok] at h
      obtain ⟨⟨name, id⟩, hn, h⟩ := h
      cases h
      exact ⟨.generated name ip accessIp hdigit hparts hunnamed (carriesIp_of_existsIp hb) hn rfl,
        rfl⟩

/-- The variables that a name argument sets, or keeps when there is no comma. -/
theorem nameParts_locals {s₁ : Locals} (h : nameParts s host = .ok s₁) :
    s₁.allHosts = s.allHosts ∧ s₁.nextHostId = s.nextHostId ∧
      (s₁.hostname = s.hostname ∨
        ',' ∈ host.toList ∧ (split ',' host).head? = s₁.hostname) := by
  unfold nameParts at h
  split at h
  · next hc =>
    split at h
    · next hs => cases h; exact ⟨rfl, rfl, .inr ⟨hc, by rw [hs]; rfl⟩⟩
    · next hs => cases h; exact ⟨rfl, rfl, .inr ⟨hc, by rw [hs]; rfl⟩⟩
    · cases h
  · cases h
    exact ⟨rfl, rfl, .inl rfl⟩

/-- The branch of a name. -/
theorem nameArgument_change (h : nameArgument s host = .ok s') :
    Change env s host s' ∧ (s'.hostname = s.hostname ∨
      ',' ∈ host.toList ∧ (split ',' host).head? = s'.hostname) := by
  rw [nameArgument, bind_eq_ok] at h
  obtain ⟨s₁, hs₁, h⟩ := h
  obtain ⟨hhosts, hid, hname⟩ := nameParts_locals hs₁
  split at h
  · cases h
    exact ⟨.kept hhosts hid, hname⟩
  · simp only [bind_eq_ok] at h
    obtain ⟨ip, -, b, hb, h⟩ := h
    cases b with
    | true =>
      cases h
      exact ⟨.kept hhosts hid, hname⟩
    | false =>
      simp only [Bool.false_eq_true, if_false, bind_eq_ok] at h
      obtain ⟨accessIp, -, hostname, hn, h⟩ := h
      cases h
      have hh : s₁.hostname = some hostname := by
        cases ho : s₁.hostname with
        | none => rw [ho] at hn; cases hn
        | some n => rw [ho] at hn; cases hn; rfl
      rw [hhosts] at hb
      exact ⟨.named hostname ip accessIp (carriesIp_of_existsIp hb) hh (by rw [hhosts]) hid, hname⟩

/-- What an argument does to the host list, and which name it leaves in `hostname`. -/
theorem argument_change (h : argument env s host = .ok s') :
    Change env s host s' ∧
      (s'.hostname = s.hostname ∨ ∃ name, s'.hostname = some name ∧ Names env host name) := by
  unfold argument at h
  split at h
  · cases h
  · next c cs hl =>
    split at h
    · next hc =>
      have hd : IsDeletion host := by rw [IsDeletion, hl, hc]; rfl
      exact (deletion_change hd h).imp_right .inl
    · split at h
      · next hd => exact (ipArgument_change (by rw [hl]; simpa using hd) h).imp_right .inl
      · split at h
        · next ha =>
          obtain ⟨hch, hname⟩ := nameArgument_change h
          refine ⟨hch, hname.imp_right fun ⟨hc, hs⟩ => ?_⟩
          cases hn : s'.hostname with
          | none =>
            rw [hn, List.head?_eq_none_iff] at hs
            simp [split] at hs
          | some name =>
            exact ⟨name, rfl, by rw [hl]; simpa using ha, hc, by rw [hs, hn]⟩
        · cases h
          exact ⟨.kept rfl rfl, .inl rfl⟩

end

/-- Arguments that are no ranges stand for themselves. -/
theorem range2ips_eq_self {env : Env} {args : List String}
    (h : ∀ host ∈ args, isRange env host = false) : range2ips env args = .ok args := by
  have hm : args.mapM (expandRange env) = .ok (args.map fun host => [host]) := by
    induction args with
    | nil => rfl
    | cons host args ih =>
      rw [List.mapM_cons, expandRange, h host (.head _), ih fun x hx => h x (.tail _ hx)]
      rfl
  rw [range2ips, hm, ok_bind, ← List.flatMap_def, List.flatMap_singleton', pure_eq_ok]

/-- The addresses of a range are no names and no deletions. -/
theorem mem_ips {first last : String} {addresses : List String}
    (h : ips first last = some addresses) {host : String} (hm : host ∈ addresses) :
    ',' ∉ host.toList ∧ ¬ IsDeletion host := by
  simp only [ips, Option.bind_eq_bind, Option.bind_eq_some_iff] at h
  obtain ⟨a, -, b, -, h⟩ := h
  obtain ⟨n, -, hn⟩ := IpAddress.exists_mem_of_mapM_eq_some h hm
  obtain ⟨address, -, rfl⟩ := Option.map_eq_some_iff.1 hn
  obtain ⟨hcomma, hdash⟩ := IpAddress.not_mem_exploded address
  exact ⟨hcomma, fun hd => hdash (List.mem_of_mem_head? hd)⟩

/-- What `range2ips` puts in the place of the arguments: addresses, or the argument itself. -/
theorem mem_of_mem_range2ips {env : Env} {args changed : List String}
    (h : range2ips env args = .ok changed) {host : String} (hm : host ∈ changed) :
    host ∈ args ∨ ',' ∉ host.toList ∧ ¬ IsDeletion host := by
  rw [range2ips, bind_eq_ok] at h
  obtain ⟨hss, hmap, h⟩ := h
  cases h
  obtain ⟨hs, hhs, hm⟩ := List.mem_flatten.1 hm
  obtain ⟨arg, harg, he⟩ := exists_of_mapM_eq_ok hmap hhs
  unfold expandRange at he
  split at he
  · refine .inr ?_
    split at he
    · next first last _ =>
      cases hips : ips first last with
      | none => rw [hips] at he; cases he
      | some addresses =>
        rw [hips] at he
        cases he
        exact mem_ips hips hm
    · cases he
  · cases he
    exact .inl (List.mem_singleton.1 hm ▸ harg)

/-! ## What every argument keeps -/

section
variable {env : Env} {s s' : Locals} {host : String}

/-- The id of a host that is given without a name grows by one, or not at all. -/
theorem nextHost_id {id id' : Nat} {accessIp name : String}
    (h : nextHost env id accessIp = .ok (name, id')) : id ≤ id' := by
  unfold nextHost at h
  split at h
  · rw [bind_eq_ok] at h
    obtain ⟨n, -, h⟩ := h
    cases h
    exact le_refl _
  · cases h
    exact Nat.le_succ _

/-- The next id does not shrink. -/
theorem Change.id_le (h : Change env s host s') : s.nextHostId ≤ s'.nextHostId := by
  cases h with
  | kept _ id => exact id.ge
  | deleted _ _ _ _ id => exact id.ge
  | generated _ _ _ _ _ _ _ next _ => exact nextHost_id next
  | named _ _ _ _ _ _ id => exact id.ge

/-- A property of the options of new hosts holds of all hosts if it held of the old ones. -/
theorem Change.forall_opts {P : Value → Prop} (hP : ∀ accessIp ip, P (hostOpts accessIp ip))
    (h : Change env s host s') (hs : ∀ p ∈ s.allHosts.items, P p.2) :
    ∀ p ∈ s'.allHosts.items, P p.2 := by
  have hins : ∀ name accessIp ip,
      ∀ p ∈ (s.allHosts.insert name (hostOpts accessIp ip)).items, P p.2 := by
    intro name accessIp ip p hp
    rcases Assoc.mem_insert hp with ⟨he, -⟩ | hp
    · rw [he]
      exact hP accessIp ip
    · exact hs p hp
  cases h with
  | kept hosts _ => rwa [hosts]
  | deleted name _ _ hosts _ =>
    rw [hosts]
    exact fun p hp => hs p (List.mem_of_mem_filter hp)
  | generated name ip accessIp _ _ _ _ _ hosts => rw [hosts]; exact hins name accessIp ip
  | named name ip accessIp _ _ hosts _ => rw [hosts]; exact hins name accessIp ip

/-- Every host still has an ip. -/
theorem Change.hasIps (h : Change env s host s') (hs : HasIps s.allHosts) : HasIps s'.allHosts :=
  h.forall_opts (P := fun opts => ∃ v, getIpFromOpts opts = .ok v)
    (fun _ _ => ⟨_, getIpFromOpts_hostOpts⟩) hs

/-- The ips stay distinct when an ip is stored that no host carries. -/
theorem IpsDistinct.insert {hosts : OrdDict String Value} {name accessIp ip : String}
    (hd : IpsDistinct hosts) (hnew : carriesIp hosts ip = false) :
    IpsDistinct (hosts.insert name (hostOpts accessIp ip)) := by
  refine Assoc.nodup_map_insert ipOf hd ?_
  rw [ipOf_hostOpts]
  exact ipOf_not_mem hnew

/-- The ips stay distinct: only an ip that no host carries is stored. -/
theorem Change.ipsDistinct (h : Change env s host s') (hs : IpsDistinct s.allHosts) :
    IpsDistinct s'.allHosts := by
  cases h with
  | kept hosts _ => rwa [hosts]
  | deleted name _ _ hosts _ =>
    rw [hosts]
    exact hs.sublist (List.filter_sublist.map _)
  | generated _ _ _ _ _ _ new _ hosts => rw [hosts]; exact hs.insert new
  | named _ _ _ new _ hosts _ => rw [hosts]; exact hs.insert new

/-- What every `Change` keeps, the loop over the arguments keeps. -/
theorem loop_invariant {P : Locals → Prop} {args : List String}
    (hP : ∀ s s', ∀ host ∈ args, P s → Change env s host s' → P s') (hs : P s)
    (h : args.foldlM (argument env) s = .ok s') : P s' :=
  foldlM_invariant (fun s s' host ha hs hstep => hP s s' host ha hs (argument_change hstep).1) hs h

/-- The options of the hosts after the loop: those of old hosts, and `hostOpts`. -/
theorem loop_forall_opts {P : Value → Prop} {args : List String}
    (hP : ∀ accessIp ip, P (hostOpts accessIp ip)) (hs : ∀ p ∈ s.allHosts.items, P p.2)
    (h : args.foldlM (argument env) s = .ok s') : ∀ p ∈ s'.allHosts.items, P p.2 :=
  loop_invariant (P := fun s => ∀ p ∈ s.allHosts.items, P p.2)
    (fun _ _ _ _ hs hch => hch.forall_opts hP hs) hs h

/-- The ips are distinct after the loop if they were before. -/
theorem loop_ipsDistinct {args : List String} (hs : IpsDistinct s.allHosts)
    (h : args.foldlM (argument env) s = .ok s') : IpsDistinct s'.allHosts :=
  loop_invariant (P := fun s => IpsDistinct s.allHosts)
    (fun _ _ _ _ hs hch => hch.ipsDistinct hs) hs h

end

/-! ## The loaded hosts -/

section
variable {env : Env} {hosts : OrdDict String Value} {yamlConfig : Value}

/-- One iteration of the search for the highest id. -/
def scanId (env : Env) (highest : Nat) (host : String) : Except Exc Nat := do
  if startsWith host env.hostPrefix then
    let hostId ← getHostId env host
    pure (if hostId > highest then hostId else highest)
  else pure highest

/-- The highest id among the names that start with `HOST_PREFIX`. -/
def highestHostId (env : Env) (names : List String) : Except Exc Nat :=
  names.foldlM (scanId env) 0

/-- Reading one host copies its options and searches its name. -/
theorem existingHost_eq {r : OrdDict String Value × Nat} {p : String × Value}
    (hp : p ∈ hosts.items) :
    existingHost env (.dict hosts.items) r p.1 =
      (scanId env r.2 p.1 >>= fun highest => pure (r.1.insert p.1 p.2, highest)) := by
  have hl : Assoc.lookup p.1 hosts.items = some p.2 := Assoc.lookup_of_mem hosts.nodup hp
  simp only [existingHost, Value.getItem_dict, hl, ok_bind, scanId, pure_eq_ok]
  split
  · cases getHostId env p.1 <;> rfl
  · rfl

/-- Reading the loaded hosts copies them, and fails only on a name without an id. -/
theorem existingHosts_eq (h : yamlConfig.getPath ["all", "hosts"] = .ok (.dict hosts.items)) :
    existingHosts env yamlConfig =
      (highestHostId env hosts.keys >>= fun highest => pure (hosts, highest)) := by
  have key : ∀ (l : List (String × Value)) (d : OrdDict String Value) (n : Nat),
      d.items ++ l = hosts.items →
      (Assoc.keys l).foldlM (existingHost env (.dict hosts.items)) (d, n) =
        ((Assoc.keys l).foldlM (scanId env) n >>= fun highest => pure (hosts, highest)) := by
    intro l
    induction l with
    | nil =>
      intro d n hd
      have : d = hosts := OrdDict.ext (by simpa using hd)
      rw [this]
      rfl
    | cons p l ih =>
      intro d n hd
      have hp : p ∈ hosts.items := by rw [← hd]; exact List.mem_append_right _ (.head _)
      have hnew : p.1 ∉ Assoc.keys d.items := by
        have hnd := hosts.nodup
        rw [← hd, Assoc.keys_append, Assoc.keys_cons, List.nodup_append] at hnd
        exact fun hm => hnd.2.2 _ hm _ (.head _) rfl
      have hd' : (d.insert p.1 p.2).items ++ l = hosts.items := by
        rw [OrdDict.items_insert, Assoc.insert_of_not_mem hnew, ← hd]
        simp
      rw [Assoc.keys_cons, List.foldlM_cons, List.foldlM_cons, existingHost_eq hp]
      cases hs : scanId env n p.1 with
      | error e => rfl
      | ok m => exact ih _ m hd'
  simp only [existingHosts, h, ok_bind, Value.iter, highestHostId]
  exact key hosts.items .empty 0 rfl

/-- The loop of `build_hostnames` on a loaded inventory starts with the loaded hosts and the id
above the highest. -/
theorem initialLocals_eq_ok {s : Locals}
    (h : yamlConfig.getPath ["all", "hosts"] = .ok (.dict hosts.items)) :
    initialLocals env true yamlConfig = .ok s ↔
      ∃ highest, highestHostId env hosts.keys = .ok highest ∧
        s = { allHosts := hosts, nextHostId := highest + 1 } := by
  simp only [initialLocals, if_true, existingHosts_eq h]
  cases highestHostId env hosts.keys with
  | error e => simp
  | ok n => simp [eq_comm]

/-- Without a loaded inventory it starts with no hosts. -/
theorem initialLocals_false :
    initialLocals env false yamlConfig = .ok { allHosts := .empty, nextHostId := 1 } := rfl

/-- `build_hostnames` in terms of its loop. -/
theorem buildHostnames_eq_ok {load : Bool} {args : List String} {result : OrdDict String Value} :
    buildHostnames env args load yamlConfig = .ok result ↔
      ∃ s s', initialLocals env load yamlConfig = .ok s ∧
        args.foldlM (argument env) s = .ok s' ∧ result = s'.allHosts := by
  simp only [buildHostnames, changedLocals, bind_eq_ok, pure_eq_ok, Except.ok.injEq]
  constructor
  · rintro ⟨s', ⟨s, hs, hl⟩, rfl⟩
    exact ⟨s, s', hs, hl, rfl⟩
  · rintro ⟨s, s', hs, hl, rfl⟩
    exact ⟨s', ⟨s, hs, hl⟩, rfl⟩

end

end Kubespray
