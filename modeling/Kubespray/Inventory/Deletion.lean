import Kubespray.Inventory.Runs

/-!
# Deleting hosts

`deleteTargets` says which hosts a list of deletions `-x` hits, each in turn: the host named `x`,
and otherwise the first host whose ip is `x`. `deletion_complete` says that a run with these
arguments deletes exactly them, from the host list and from every group, as long as none has a
protected name.
-/

namespace Kubespray

open Py

/-- The host that a deletion `-x` hits. -/
def deleteTarget (hosts : List (String × Value)) (x : String) : Option String :=
  if x ∈ Assoc.keys hosts then some x else (hosts.find? fun p => hasIp p.2 x).map Prod.fst

/-- The hosts that a list of deletions hits, each in what the ones before it leave. -/
def deleteTargets : List (String × Value) → List String → List String
  | _, [] => []
  | hosts, arg :: args =>
    match deleteTarget hosts (tail arg) with
    | some name => name :: deleteTargets (Assoc.erase name hosts) args
    | none => deleteTargets hosts args

section
variable {env : Env} {s s' : Locals} {args : List String} {inv : Inventory}

/-- The branch of a deletion deletes the target. -/
theorem deletion_eq (hs : HasIps s.allHosts) (x : String) :
    deletion s x = .ok (match deleteTarget s.allHosts.items x with
      | some name => { s with allHosts := s.allHosts.erase name }
      | none => s) := by
  by_cases hx : x ∈ s.allHosts.keys
  · have hx' : x ∈ Assoc.keys s.allHosts.items := hx
    simp only [deletion, existsHostname, deleteTarget, if_pos hx', decide_eq_true hx, if_true,
      pure_eq_ok]
  · have hx' : x ∉ Assoc.keys s.allHosts.items := hx
    simp only [deletion, existsHostname, deleteTarget, if_neg hx', decide_eq_false hx,
      Bool.false_eq_true, if_false, existsIp, deleteHostByIp, hostByIp_eq hs, ok_bind, pure_eq_ok]
    cases s.allHosts.items.find? fun p => hasIp p.2 x <;> rfl

/-- A deletion is given to its branch. -/
theorem argument_of_deletion {arg : String} (h : IsDeletion arg) (s : Locals) :
    argument env s arg = deletion s (tail arg) := by
  unfold argument
  rw [IsDeletion] at h
  cases hl : arg.toList with
  | nil => rw [hl] at h; cases h
  | cons c cs =>
    rw [hl] at h
    cases h
    rfl

/-- The loop over deletions takes the targets out of the host list. -/
theorem loop_deletions (hs : HasIps s.allHosts) (hdel : ∀ arg ∈ args, IsDeletion arg)
    (h : args.foldlM (argument env) s = .ok s') :
    s'.allHosts.items =
      s.allHosts.items.filter fun p => p.1 ∉ deleteTargets s.allHosts.items args := by
  induction args generalizing s with
  | nil =>
    cases h
    simp [deleteTargets]
  | cons arg args ih =>
    rw [List.foldlM_cons, argument_of_deletion (hdel arg (.head _)), deletion_eq hs, ok_bind] at h
    have hdel' : ∀ a ∈ args, IsDeletion a := fun a ha => hdel a (.tail _ ha)
    cases ht : deleteTarget s.allHosts.items (tail arg) with
    | none =>
      rw [ht] at h
      simp only [deleteTargets, ht]
      exact ih hs hdel' h
    | some name =>
      rw [ht] at h
      have hs₁ : HasIps (s.allHosts.erase name) := fun p hp => hs p (List.mem_of_mem_filter hp)
      rw [ih hs₁ hdel' h, OrdDict.items_erase, Assoc.erase, List.filter_filter]
      refine List.filter_congr fun p _ => ?_
      simp only [deleteTargets, ht, List.mem_cons, not_or, Assoc.erase]
      rw [Bool.decide_and, Bool.and_comm]

/-- No deletion is a range. -/
theorem range2ips_of_deletions (hdel : ∀ arg ∈ args, IsDeletion arg) :
    range2ips env args = .ok args := by
  refine range2ips_eq_self fun arg ha => ?_
  have hd := hdel arg ha
  rw [IsDeletion] at hd
  have hs : startsWith arg "-" = true := by
    rw [startsWith_iff]
    cases hl : arg.toList with
    | nil => rw [hl] at hd; cases hd
    | cons c cs =>
      rw [hl] at hd
      cases hd
      exact ⟨cs, rfl⟩
  simp [isRange, hs]

/-- A deletion is no command. -/
theorem not_command_of_deletion {arg : String} (h : IsDeletion arg) : arg ∉ availableCommands := by
  have hall : ∀ c ∈ availableCommands, c.toList.head? ≠ some '-' := by decide
  exact fun hm => hall arg hm h

/-- When the first argument is a deletion, the previous inventory is loaded. -/
theorem loadPreviousConfig_of_deletion {add : Bool} {arg : String} (h : IsDeletion arg) :
    loadPreviousConfig add (arg :: args) = .ok true := by
  rw [IsDeletion] at h
  cases hl : arg.toList with
  | nil => rw [hl] at h; cases h
  | cons c cs =>
    rw [hl] at h
    cases h
    simp [loadPreviousConfig, hl]

/-- A run with deletions starts from the inventory in the file and takes the targets out of its
host list. -/
theorem builds_deletions {argv : List String} {start : Value} {hosts : OrdDict String Value}
    (hs : HasIps inv.hosts) (hargv : argv = args ∨ argv = "add" :: args)
    (hdel : ∀ arg ∈ args, IsDeletion arg)
    (h : builds env argv (.yaml inv.toValue) = .ok (start, hosts)) :
    start = inv.toValue ∧
      hosts.items = inv.hosts.items.filter fun p => p.1 ∉ deleteTargets inv.hosts.items args := by
  obtain ⟨add, hb⟩ : ∃ add, built env add args (.yaml inv.toValue) = .ok (start, hosts) := by
    rcases hargv with rfl | rfl
    · cases argv with
      | nil => exact ⟨false, h⟩
      | cons arg args =>
        rw [builds, inventoryArgs, if_pos (not_command_of_deletion (hdel arg (.head _)))] at h
        exact ⟨false, h⟩
    · exact ⟨true, h⟩
  obtain ⟨load, changed, highest, s', hload, rfl, hr, -, hloop, rfl⟩ := built_eq_ok (.yaml inv) hb
  rw [range2ips_of_deletions hdel] at hr
  cases hr
  have hl : load = true := by
    cases args with
    | nil => exact absurd rfl (ne_nil_of_built hb)
    | cons arg args =>
      rw [loadPreviousConfig_of_deletion (hdel arg (.head _))] at hload
      cases hload
      rfl
  subst hl
  exact ⟨rfl, loop_deletions hs hdel hloop⟩

/-- Every member of a group of a well-formed inventory is a host. -/
theorem mem_hosts_of_mem_members (hw : inv.WellFormed) {group h : String}
    (hm : h ∈ members inv.toValue group) : h ∈ inv.hosts.keys := by
  by_cases hg : ∃ r : Role, r.name = group
  · obtain ⟨r, rfl⟩ := hg
    rw [members_toValue] at hm
    exact hw.members r h hm
  · rw [members_toValue_of_ne hw fun r hr => hg ⟨r, hr⟩] at hm
    cases hm

/-- When the list is what deletions leave of the hosts and no deleted host has a protected name, the
written inventory has the hosts of the list. -/
theorem place_hosts_of_deletions {hosts : OrdDict String Value} {targets : List String}
    (hitems : hosts.items = inv.hosts.items.filter fun p => p.1 ∉ targets)
    (hprot : ∀ name ∈ targets, name ∉ protectedNames) : (inv.place env hosts).hosts = hosts := by
  have hkeys : ∀ p ∈ inv.hosts.items, p.1 ∈ hosts.keys ↔ p.1 ∉ targets := by
    intro p hp
    constructor
    · intro hk
      obtain ⟨q, hq, he⟩ := List.mem_map.1 hk
      rw [hitems, List.mem_filter] at hq
      rw [← he]
      simpa using hq.2
    · intro ht
      refine List.mem_map_of_mem (f := Prod.fst) (a := p) ?_
      rw [hitems, List.mem_filter]
      exact ⟨hp, by simpa using ht⟩
  have hpurge : inv.hosts.filter (Inventory.keeps hosts) = hosts := by
    ext1
    rw [OrdDict.items_filter, hitems]
    refine List.filter_congr fun p hp => ?_
    rw [Bool.eq_iff_iff, Inventory.keeps_iff, hkeys p hp, decide_eq_true_iff]
    constructor
    · rintro (ht | hp')
      · exact ht
      · exact fun ht => hprot _ ht hp'
    · exact .inl
  rw [Inventory.place_hosts, hpurge]
  exact OrdDict.insertAll_of_items_eq_append (List.append_nil _).symm

end

/-- A run whose arguments are deletions, none of which hits a host with a protected name, on a
reachable file: no deleted host is left in `all.hosts` or in a group, every member of a group is a
host, and the hosts are the old ones without the deleted ones, in their order and with their
options. -/
theorem deletion_complete {env : Env} {cfg cfg' : Value} {argv args : List String}
    (hr : (builder env).Reachable (.yaml cfg)) (hargv : argv = args ∨ argv = "add" :: args)
    (hdel : ∀ arg ∈ args, IsDeletion arg)
    (hrun : run env argv (.yaml cfg) = (.ok (), .yaml cfg'))
    (hprot : ∀ name ∈ deleteTargets (hostsOf cfg) args, name ∉ protectedNames) :
    (∀ name ∈ deleteTargets (hostsOf cfg) args,
      name ∉ hostNames cfg' ∧ ∀ group, name ∉ members cfg' group) ∧
    (∀ group, ∀ h ∈ members cfg' group, h ∈ hostNames cfg') ∧
    hostsOf cfg' = (hostsOf cfg).filter fun p => p.1 ∉ deleteTargets (hostsOf cfg) args := by
  obtain ⟨inv, hf, hw⟩ := reachable_holds hr
  cases hf
  rw [hostsOf_toValue] at hprot ⊢
  have hips : HasIps inv.hosts := hasIps_of_opts hw.opts
  obtain ⟨start, hosts, w, hb, hs, hcfg⟩ := run_eq_ok.1 hrun
  obtain ⟨rfl, hitems⟩ := builds_deletions hips hargv hdel hb
  rw [setGroups_toValue] at hs
  cases hs
  cases hcfg
  have hplace : (inv.place env hosts).hosts = hosts := place_hosts_of_deletions hitems hprot
  have hw' : (inv.place env hosts).WellFormed := by
    refine hw.place fun p hp => ?_
    rw [hitems] at hp
    exact hw.opts p (List.mem_of_mem_filter hp)
  have hgone : ∀ name ∈ deleteTargets inv.hosts.items args,
      name ∉ (inv.place env hosts).hosts.keys := by
    intro name ht hm
    rw [hplace] at hm
    obtain ⟨p, hp, rfl⟩ := List.mem_map.1 hm
    rw [hitems, List.mem_filter] at hp
    exact absurd ht (by simpa using hp.2)
  refine ⟨fun name ht => ⟨hgone name ht, fun group hm => ?_⟩, fun group h hm => ?_, ?_⟩
  · exact hgone name ht (mem_hosts_of_mem_members hw' hm)
  · exact mem_hosts_of_mem_members hw' hm
  · rw [hostsOf_toValue, hplace, hitems]

/-- Of two hosts the second is deleted. -/
theorem deletion_complete_second_host :
    ∃ cfg cfg', run {} ["-10.0.0.2"] (.yaml cfg) = (.ok (), .yaml cfg') ∧
      hostNames cfg = ["node1", "node2"] ∧
      hostsOf cfg' = (hostsOf cfg).filter fun p => p.1 ∉ ["node2"] := by
  have hb : builds {} ["10.0.0.1", "10.0.0.2"] .absent =
      .ok (Inventory.fresh.toValue, ⟨[("node1", hostOpts "10.0.0.1" "10.0.0.1"),
        ("node2", hostOpts "10.0.0.2" "10.0.0.2")], by decide⟩) := rfl
  let inv := Inventory.fresh.place {} ⟨[("node1", hostOpts "10.0.0.1" "10.0.0.1"),
    ("node2", hostOpts "10.0.0.2" "10.0.0.2")], by decide⟩
  have hb' : builds {} ["-10.0.0.2"] (.yaml inv.toValue) =
      .ok (inv.toValue, ⟨[("node1", hostOpts "10.0.0.1" "10.0.0.1")], by decide⟩) := rfl
  have hdel : ∀ arg ∈ ["-10.0.0.2"], IsDeletion arg := by decide
  have h := deletion_complete (.step (.init rfl) (run_of_builds hb)) (.inl rfl) hdel
    (run_of_builds hb') (by decide)
  exact ⟨_, _, run_of_builds hb', rfl, h.2.2⟩

end Kubespray
