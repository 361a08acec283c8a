import Kubespray.Inventory.Creation

/-!
# Extending an inventory

Whether a further run `add X` succeeds on an inventory that runs have written. `Extendable` is what
it takes: the builder reads the ids of all hosts named like generated ones, and a new name is free.
`add_extends` says that this is the exact condition, and that with generated names only the ids can
be at fault.
-/

namespace Kubespray

open Py

/-- What a further run `add ip` needs of the host names. -/
structure Extendable (env : Env) (names : List String) (ip : String) : Prop where
  /-- Every name that starts with `HOST_PREFIX` has an id. -/
  ids : ∀ name ∈ names, startsWith name env.hostPrefix = true → ∃ id, getHostId env name = .ok id
  /-- No host has the address for a name. -/
  unnamed : ip ∉ names
  /-- The name for the id above the highest is free. -/
  free : ∀ highest, highestHostId env names = .ok highest →
    ∃ name id, nextHost env (highest + 1) ip = .ok (name, id) ∧ name ∉ names

section
variable {env : Env} {inv : Inventory} {ip : String} {n : Nat}

/-- An address that no host carries is skipped if it is a host name, and else stored under the name
of `nextHost`. -/
theorem argument_ipv4 (hip : IpAddress.parse4 ip = some n) {s : Locals} (hs : HasIps s.allHosts)
    (hnew : carriesIp s.allHosts ip = false) {hosts : OrdDict String Value} :
    (∃ s', argument env s ip = .ok s' ∧ hosts = s'.allHosts) ↔
      ip ∈ s.allHosts.keys ∧ hosts = s.allHosts ∨
      ip ∉ s.allHosts.keys ∧ ∃ name id, nextHost env s.nextHostId ip = .ok (name, id) ∧
        hosts = s.allHosts.insert name (hostOpts ip ip) := by
  obtain ⟨hcomma, -, hdigit⟩ := AddArg.ipv4_text env hip
  have hparts : ipParts ip = .ok (ip, ip) := if_neg hcomma
  rw [AddArg.argument_of_digit hdigit, ipArgument, hparts, ok_bind]
  simp only [existsHostname, existsIp_eq hs, hnew, ok_bind, pure_eq_ok, Bool.false_eq_true,
    if_false, decide_eq_true_eq]
  by_cases hm : ip ∈ s.allHosts.keys
  · simp [hm]
  · cases nextHost env s.nextHostId ip with
    | error e => simp [hm]
    | ok r =>
      obtain ⟨name, id⟩ := r
      simp [hm, and_assoc]

/-- The host list of a run `add ip`. -/
theorem builds_add (hw : inv.WellFormed) (hip : IpAddress.parse4 ip = some n)
    (hnew : carriesIp inv.hosts ip = false) {start : Value} {hosts : OrdDict String Value} :
    builds env ["add", ip] (.yaml inv.toValue) = .ok (start, hosts) ↔
      start = inv.toValue ∧ ∃ highest, highestHostId env inv.hosts.keys = .ok highest ∧
        (ip ∈ inv.hosts.keys ∧ hosts = inv.hosts ∨
        ip ∉ inv.hosts.keys ∧ ∃ name id, nextHost env (highest + 1) ip = .ok (name, id) ∧
          hosts = inv.hosts.insert name (hostOpts ip ip)) := by
  have hips : HasIps inv.hosts := hasIps_of_opts hw.opts
  have htexts : ∀ text ∈ [ip], AddArg.IsAddressText env text := by
    intro text ht
    obtain rfl := List.mem_singleton.1 ht
    exact AddArg.ipv4_text env hip
  have hargs : ∀ a ∈ AddArg.ofIps env [ip] htexts, a.IsAddress := AddArg.ofIps_isAddress
  have hload : loadPreviousConfig true [ip] = .ok true := loadPreviousConfig_texts hargs
  have hrange : range2ips env [ip] = .ok [ip] := range2ips_texts hargs
  have hstart : startConfig true (.yaml inv.toValue) = .ok inv.toValue :=
    ensureRequiredGroups_toValue inv
  have hbuilt : builds env ["add", ip] (.yaml inv.toValue) =
      (buildHostnames env [ip] true inv.toValue >>= fun hosts => pure (inv.toValue, hosts)) := by
    show built env true [ip] _ = _
    simp only [built, hload, hstart, hrange, ok_bind, List.isEmpty_cons, Bool.false_eq_true,
      if_false]
  have hloop : ∀ hosts, buildHostnames env [ip] true inv.toValue = .ok hosts ↔
      ∃ highest, highestHostId env inv.hosts.keys = .ok highest ∧
        ∃ s', argument env { allHosts := inv.hosts, nextHostId := highest + 1 } ip = .ok s' ∧
          hosts = s'.allHosts := by
    intro hosts
    simp only [buildHostnames_eq_ok, initialLocals_eq_ok (getPath_hosts inv), List.foldlM_cons,
      List.foldlM_nil, pure_eq_ok, bind_eq_ok, Except.ok.injEq]
    constructor
    · rintro ⟨_, s', ⟨highest, hh, rfl⟩, ⟨_, ha, rfl⟩, rfl⟩
      exact ⟨highest, hh, _, ha, rfl⟩
    · rintro ⟨highest, hh, s', ha, rfl⟩
      exact ⟨_, s', ⟨highest, hh, rfl⟩, ⟨s', ha, rfl⟩, rfl⟩
  rw [hbuilt]
  simp only [bind_eq_ok, hloop, pure_eq_ok, Except.ok.injEq, Prod.mk.injEq]
  constructor
  · rintro ⟨hosts', ⟨highest, hh, ha⟩, rfl, rfl⟩
    exact ⟨rfl, highest, hh, (argument_ipv4 hip hips hnew).1 ha⟩
  · rintro ⟨rfl, highest, hh, ha⟩
    exact ⟨hosts, ⟨highest, hh, (argument_ipv4 hip hips hnew).2 ha⟩, rfl, rfl⟩

/-- The run writes one new host if the inventory is extendable. -/
theorem add_of_extendable (hw : inv.WellFormed) (hip : IpAddress.parse4 ip = some n)
    (hnew : carriesIp inv.hosts ip = false) (h : Extendable env inv.hosts.keys ip) :
    ∃ (inv' : Inventory) (name : String),
      run env ["add", ip] (.yaml inv.toValue) = (.ok (), .yaml inv'.toValue) ∧
      name ∉ inv.hosts.keys ∧ inv'.hosts.items = inv.hosts.items ++ [(name, hostOpts ip ip)] := by
  obtain ⟨highest, hh⟩ := highestHostId_isOk.2 h.ids
  obtain ⟨name, id, hnext, hfree⟩ := h.free highest hh
  have hitems : (inv.hosts.insert name (hostOpts ip ip)).items =
      inv.hosts.items ++ [(name, hostOpts ip ip)] := Assoc.insert_of_not_mem hfree _
  refine ⟨inv.place env (inv.hosts.insert name (hostOpts ip ip)), name,
    run_of_builds ((builds_add hw hip hnew).2 ⟨rfl, highest, hh, .inr ⟨h.unnamed, name, id, hnext,
      rfl⟩⟩), hfree, ?_⟩
  have hkeep : inv.hosts.filter (Inventory.keeps (inv.hosts.insert name (hostOpts ip ip))) =
      inv.hosts :=
    OrdDict.filter_eq_self fun k hk => Inventory.keeps_iff.2 (.inl (by simp [hk]))
  rw [Inventory.place_hosts, hkeep, OrdDict.insertAll_of_items_eq_append hitems, hitems]

/-- If it is not, the run fails or writes no new name. -/
theorem extendable_of_add (hw : inv.WellFormed) (hip : IpAddress.parse4 ip = some n)
    (hnew : carriesIp inv.hosts ip = false) {cfg : Value} {name : String}
    (hrun : run env ["add", ip] (.yaml inv.toValue) = (.ok (), .yaml cfg))
    (hname : name ∈ hostNames cfg) (hfresh : name ∉ inv.hosts.keys) :
    Extendable env inv.hosts.keys ip := by
  obtain ⟨start, hosts, w, hb, hs, hfile⟩ := run_eq_ok.1 hrun
  cases hfile
  obtain ⟨rfl, highest, hh, hcase⟩ := (builds_add hw hip hnew).1 hb
  rw [setGroups_toValue] at hs
  cases hs
  rw [hostNames_toValue, Inventory.mem_place_hosts] at hname
  have hmem : name ∈ hosts.keys := hname.resolve_right fun h => hfresh h.1
  rcases hcase with ⟨-, rfl⟩ | ⟨hip', name', id, hnext, rfl⟩
  · exact absurd hmem hfresh
  · -- the new name is the one that was stored
    have he : name = name' := by
      rw [OrdDict.mem_keys_insert] at hmem
      exact hmem.resolve_right hfresh
    subst he
    refine ⟨highestHostId_isOk.1 ⟨highest, hh⟩, hip', fun h hh' => ?_⟩
    rw [hh] at hh'
    cases hh'
    exact ⟨name, id, hnext, hfresh⟩

end

/-! ## The names of generated and named hosts -/

/-- Whether a text starts with a letter. -/
def StartsWithLetter (env : Env) (s : String) : Prop := s.toList.head?.any env.chars.isalpha = true

section
variable {env : Env} {inv : Inventory} {cfg : Value} {ip : String} {n : Nat}

/-- The name that an argument gives starts with a letter. -/
theorem Names.startsWithLetter {host name : String} (h : Names env host name) :
    StartsWithLetter env name := by
  obtain ⟨hletter, -, hname⟩ := h
  unfold StartsWithLetter
  cases hl : host.toList with
  | nil => rw [hl] at hletter; cases hletter
  | cons c cs =>
    have hc : env.chars.isalpha c = true := by simpa [hl] using hletter
    have hcomma : c ≠ ',' := CharTable.ne_of_isalpha hc (by decide) (by decide)
    rw [split, hl, List.head?_map] at hname
    obtain ⟨part, hpart, rfl⟩ := Option.map_eq_some_iff.1 hname
    -- the part before the first comma keeps the first character
    rw [List.splitOn_cons_eq_if_modifyHead, if_neg (by simpa using hcomma),
      List.head?_modifyHead] at hpart
    obtain ⟨rest, -, rfl⟩ := Option.map_eq_some_iff.1 hpart
    simpa using hc

/-- With generated names, all names start with a letter after an argument. -/
theorem argument_startsWithLetter {s s' : Locals} {host : String}
    (hreal : env.useRealHostname = false) (hletter : StartsWithLetter env env.hostPrefix)
    (hs : (∀ k ∈ s.allHosts.keys, StartsWithLetter env k) ∧
      ∀ name, s.hostname = some name → StartsWithLetter env name)
    (h : argument env s host = .ok s') :
    (∀ k ∈ s'.allHosts.keys, StartsWithLetter env k) ∧
      ∀ name, s'.hostname = some name → StartsWithLetter env name := by
  obtain ⟨hch, hname⟩ := argument_change h
  have hname' : ∀ name, s'.hostname = some name → StartsWithLetter env name := by
    intro name hn
    rcases hname with he | ⟨name', hn', hnames⟩
    · exact hs.2 name (he ▸ hn)
    · rw [hn] at hn'
      cases hn'
      exact hnames.startsWithLetter
  refine ⟨?_, hname'⟩
  cases hch with
  | kept hosts _ => rw [hosts]; exact hs.1
  | deleted name _ _ hosts _ =>
    rw [hosts]
    intro k hk
    rw [OrdDict.keys_erase] at hk
    exact hs.1 k (List.mem_of_mem_filter hk)
  | generated name ip accessIp _ _ _ _ next hosts =>
    rw [hosts]
    intro k hk
    rcases OrdDict.mem_keys_insert.1 hk with rfl | hk
    · simp only [nextHost, hreal, Bool.false_eq_true, if_false, pure_eq_ok, Except.ok.injEq,
        Prod.mk.injEq] at next
      rw [← next.1]
      exact AddArg.head?_append hletter
    · exact hs.1 k hk
  | named name ip accessIp _ hostname hosts _ =>
    rw [hosts]
    intro k hk
    rcases OrdDict.mem_keys_insert.1 hk with rfl | hk
    · exact hname' _ hostname
    · exact hs.1 k hk

/-- With generated names, all host names of a reachable inventory start with a letter. -/
theorem place_startsWithLetter {hosts : OrdDict String Value}
    (hreal : env.useRealHostname = false) (hletter : StartsWithLetter env env.hostPrefix)
    (hbuilt : BuiltFrom env inv hosts) (h : ∀ k ∈ inv.hosts.keys, StartsWithLetter env k) :
    ∀ k ∈ (inv.place env hosts).hosts.keys, StartsWithLetter env k := by
  obtain ⟨changed, highest, s', hloop, rfl⟩ := hbuilt
  have hs' :=
      foldlM_invariant (P := fun s : Locals => (∀ k ∈ s.allHosts.keys, StartsWithLetter env k) ∧
      ∀ name, s.hostname = some name → StartsWithLetter env name)
    (fun s s' host _ hs hstep => argument_startsWithLetter hreal hletter hs hstep)
    ⟨h, fun name hn => by cases hn⟩ hloop
  intro k hk
  rcases Inventory.mem_place_hosts.1 hk with hk | ⟨hk, -⟩
  · exact hs'.1 k hk
  · exact h k hk

/-- With generated names that start with a letter and have no dot, only the ids can be missing. -/
theorem extendable_iff {names : List String} (hip : IpAddress.parse4 ip = some n)
    (hreal : env.useRealHostname = false) (hdot : '.' ∉ env.hostPrefix.toList)
    (hnames : ∀ k ∈ names, StartsWithLetter env k) :
    Extendable env names ip ↔ ∀ name ∈ names, startsWith name env.hostPrefix = true →
      ∃ id, getHostId env name = .ok id := by
  refine ⟨Extendable.ids, fun h => ⟨h, fun hm => ?_, fun highest hh => ?_⟩⟩
  · obtain ⟨-, -, hdigit⟩ := AddArg.ipv4_text env hip
    have hletter := hnames ip hm
    unfold StartsWithLetter at hletter
    cases hl : ip.toList.head? with
    | none => rw [hl] at hletter; cases hletter
    | some c =>
      rw [hl] at hdigit hletter
      have hnd := env.chars.isdigit_of_isalpha c hletter
      rw [show env.chars.isdigit c = true from hdigit] at hnd
      cases hnd
  · refine ⟨generatedName env (highest + 1), highest + 2, ?_,
      generatedName_not_mem hdot hh (Nat.lt_succ_self _)⟩
    simp [nextHost, hreal, generatedName]

/-- On every inventory that runs have written, a further run `add X` with an address that is no
host's ip succeeds and adds exactly one host, with this ip, iff the inventory is extendable. With
generated names that start with a letter and have no dot this means that the builder reads an id
from every name that starts with `HOST_PREFIX`. -/
theorem add_extends (hr : (builder env).Reachable (.yaml cfg)) (hip : IpAddress.parse4 ip = some n)
    (hnew : ∀ p ∈ hostsOf cfg, getIpFromOpts p.2 ≠ .ok (.str ip)) :
    ((∃ cfg' p, run env ["add", ip] (.yaml cfg) = (.ok (), .yaml cfg') ∧ p.1 ∉ hostNames cfg ∧
        getIpFromOpts p.2 = .ok (.str ip) ∧
        ∀ q, q ∈ hostsOf cfg' ↔ q ∈ hostsOf cfg ∨ q = p) ↔
      Extendable env (hostNames cfg) ip) ∧
    (env.useRealHostname = false → '.' ∉ env.hostPrefix.toList →
      StartsWithLetter env env.hostPrefix →
      (Extendable env (hostNames cfg) ip ↔
        ∀ name ∈ hostNames cfg, startsWith name env.hostPrefix = true →
          ∃ id, getHostId env name = .ok id)) := by
  constructor
  · obtain ⟨inv, hf, hw⟩ := reachable_holds hr
    cases hf
    have hcarry : carriesIp inv.hosts ip = false := by
      refine carriesIp_eq_false.2 fun p hp => ?_
      rw [← Bool.not_eq_true, hasIp_iff]
      exact hnew p hp
    constructor
    · rintro ⟨cfg', p, hrun, hfresh, -, hall⟩
      exact extendable_of_add hw hip hcarry hrun
        (List.mem_map_of_mem ((hall p).2 (.inr rfl))) hfresh
    · intro h
      obtain ⟨inv', name, hrun, hfresh, hitems⟩ := add_of_extendable hw hip hcarry h
      refine ⟨_, (name, hostOpts ip ip), hrun, hfresh, getIpFromOpts_hostOpts, fun q => ?_⟩
      rw [hostsOf_toValue, hitems, List.mem_append, List.mem_singleton]
      rfl
  · intro hreal hdot hletter
    obtain ⟨inv, rfl, -, hnames⟩ := reachable_invariant
      (P := fun inv => ∀ k ∈ inv.hosts.keys, StartsWithLetter env k)
      (fun _ hk => absurd hk List.not_mem_nil)
      (fun _ _ _ h hbuilt => place_startsWithLetter hreal hletter hbuilt h) hr
    exact extendable_iff hip hreal hdot hnames

end

/-- One host is created, and a second one is added. -/
theorem add_extends_one_host : ∃ cfg cfg' p, run {} ["10.0.0.1"] .absent = (.ok (), .yaml cfg) ∧
    run {} ["add", "10.0.0.2"] (.yaml cfg) = (.ok (), .yaml cfg') ∧ p.1 ∉ hostNames cfg ∧
    getIpFromOpts p.2 = .ok (.str "10.0.0.2") ∧ ∀ q, q ∈ hostsOf cfg' ↔
      q ∈ hostsOf cfg ∨ q = p := by
  let inv := Inventory.fresh.place {} ⟨[("node1", hostOpts "10.0.0.1" "10.0.0.1")], by decide⟩
  have hb : builds {} ["10.0.0.1"] .absent =
      .ok (Inventory.fresh.toValue, ⟨[("node1", hostOpts "10.0.0.1" "10.0.0.1")], by decide⟩) := rfl
  have hrun := run_of_builds hb
  have hip : IpAddress.parse4 "10.0.0.2" = some 167772162 := by decide
  have hnew : ∀ p ∈ hostsOf inv.toValue, getIpFromOpts p.2 ≠ .ok (.str "10.0.0.2") := by
    intro p hp
    obtain rfl : p = ("node1", hostOpts "10.0.0.1" "10.0.0.1") := List.mem_singleton.1 hp
    rw [getIpFromOpts_hostOpts]
    simp
  have h := @add_extends {} inv.toValue "10.0.0.2" _ (.step (.init rfl) hrun) hip hnew
  have hids : ∀ name ∈ hostNames inv.toValue, startsWith name "node" = true →
      ∃ id, getHostId {} name = .ok id := by
    intro name hn _
    obtain rfl : name = "node1" := List.mem_singleton.1 hn
    exact ⟨1, rfl⟩
  obtain ⟨cfg', p, hadd, hp⟩ :=
      h.1.2 ((h.2 rfl (by decide) (rfl : StartsWithLetter {} "node")).2 hids)
  exact ⟨_, cfg', p, hrun, hadd, hp⟩

/-- A host is named like a generated one, but without a number: nothing can be added. -/
theorem add_extends_fails : ¬ ∀ (env : Env) (cfg : Value) (ip : String) (n : Nat),
    (builder env).Reachable (.yaml cfg) → IpAddress.parse4 ip = some n →
    (∀ p ∈ hostsOf cfg, getIpFromOpts p.2 ≠ .ok (.str ip)) →
    ∃ cfg' p, run env ["add", ip] (.yaml cfg) = (.ok (), .yaml cfg') ∧ p.1 ∉ hostNames cfg ∧
      getIpFromOpts p.2 = .ok (.str ip) ∧ ∀ q, q ∈ hostsOf cfg' ↔ q ∈ hostsOf cfg ∨ q = p := by
  intro h
  let inv := Inventory.fresh.place {} ⟨[("node-a", hostOpts "10.0.0.1" "10.0.0.1")], by decide⟩
  have hb : builds {} ["node-a,10.0.0.1"] .absent =
      .ok (Inventory.fresh.toValue, ⟨[("node-a", hostOpts "10.0.0.1" "10.0.0.1")], by decide⟩) :=
        rfl
  have hnew : ∀ p ∈ hostsOf inv.toValue, getIpFromOpts p.2 ≠ .ok (.str "10.0.0.2") := by
    intro p hp
    obtain rfl : p = ("node-a", hostOpts "10.0.0.1" "10.0.0.1") := List.mem_singleton.1 hp
    rw [getIpFromOpts_hostOpts]
    simp
  -- the id of `node-a` cannot be read
  have hfail : builds {} ["add", "10.0.0.2"] (.yaml inv.toValue) = .error (.systemExit 1) := rfl
  obtain ⟨cfg', p, hrun, -⟩ := h {} inv.toValue "10.0.0.2" _ (.step (.init rfl) (run_of_builds hb))
    (by decide : IpAddress.parse4 "10.0.0.2" = some 167772162) hnew
  obtain ⟨start, hosts, w, hb', -⟩ := run_eq_ok.1 hrun
  rw [hfail] at hb'
  cases hb'

end Kubespray
