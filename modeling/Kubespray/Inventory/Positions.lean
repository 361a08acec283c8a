import Kubespray.Inventory.Repetition

/-!
# The places of hosts in their groups

The playbooks read the order of groups: `groups['kube_control_plane'][0]` runs `kubeadm init`, and
an etcd member is named after the place of its host. The builder never computes a group anew: a run
that starts from the file takes hosts out of a group and appends others to it (`members_place`). So
hosts that stay in a group keep their order, before all that have come later (`order_kept`), and
additions alone move no host (`prefix_place`).
-/

namespace Kubespray

open Py

/-! ## Runs that start from the file -/

/-- The arguments of a run that loads the previous inventory. -/
def LoadsPrevious (argv : List String) : Prop :=
  ∃ add args, inventoryArgs argv = some (add, args) ∧ loadPreviousConfig add args = .ok true

/-- The runs over a file that hold the hosts `kept` in a group, from `cfg₀` on. -/
def keeping (env : Env) (group : String) (kept : List String) (cfg₀ : Value) :
    TransitionSystem Value (List String) where
  init cfg := cfg = cfg₀ ∧ kept ⊆ members cfg group
  step cfg argv cfg' := LoadsPrevious argv ∧
    run env argv (.yaml cfg) = (.ok (), .yaml cfg') ∧ kept ⊆ members cfg' group

section
variable {env : Env} {inv : Inventory} {hosts : OrdDict String Value} {argv kept : List String}
  {cfg cfg₀ cfg' : Value} {file' : ConfigFile} {group : String}

/-- What a run leaves of a group stays in front, in its order. -/
theorem members_place (r : Role) :
    ((inv.place env hosts).group r).keys =
      (inv.group r).keys.filter (· ∈ ((inv.place env hosts).group r).keys) ++
        (inv.added env hosts r).filter (· ∉ (inv.group r).keys) := by
  have hnd : (Assoc.keys (Inventory.entries (inv.added env hosts r))).Nodup := by
    rw [Inventory.keys_entries]
    exact hosts.nodup_keys.sublist (Inventory.added_sublist r)
  have hkeys : ((inv.place env hosts).group r).keys =
      (inv.group r).keys.filter (Inventory.keeps hosts) ++ (inv.added env hosts r).filter
        (· ∉ (inv.group r).keys.filter (Inventory.keeps hosts)) := by
    rw [Inventory.place_group, OrdDict.keys_insertAll hnd, Inventory.keys_entries,
      OrdDict.keys_filter]
  have hold : (inv.group r).keys.filter (· ∈ ((inv.place env hosts).group r).keys) =
      (inv.group r).keys.filter (Inventory.keeps hosts) := by
    refine List.filter_congr fun h hh => ?_
    rw [Bool.eq_iff_iff, decide_eq_true_eq, Inventory.mem_place_group, Inventory.keeps_iff]
    refine ⟨fun hm => ?_, fun hk => .inr ⟨hh, hk⟩⟩
    rcases hm with hm | ⟨-, hk⟩
    · exact .inl (Inventory.mem_of_mem_added hm)
    · exact hk
  rw [hold, hkeys]
  refine congrArg (_ ++ ·) (List.filter_congr fun h hh => ?_)
  -- the run adds no host that it has purged
  have hk : Inventory.keeps hosts h = true :=
    Inventory.keeps_iff.2 (.inl (Inventory.mem_of_mem_added hh))
  simp [hk]

/-- A run that forgets no host leaves every group in front of its new members. -/
theorem prefix_place (hw : inv.WellFormed) (hsub : inv.hosts.keys ⊆ hosts.keys) (r : Role) :
    (inv.group r).keys <+: ((inv.place env hosts).group r).keys := by
  have hall : (inv.group r).keys.filter (· ∈ ((inv.place env hosts).group r).keys) =
      (inv.group r).keys := by
    refine List.filter_eq_self.2 fun h hh => decide_eq_true ?_
    exact Inventory.mem_place_group.2 (.inr ⟨hh, .inl (hsub (hw.members r h hh))⟩)
  rw [members_place, hall]
  exact List.prefix_append _ _

/-- A run that loads the inventory places a host list in it. -/
theorem run_of_loadsPrevious (hload : LoadsPrevious argv)
    (h : run env argv (.yaml inv.toValue) = (.ok (), .yaml cfg')) :
    ∃ hosts, cfg' = (inv.place env hosts).toValue := by
  obtain ⟨start, hosts, w, hb, hs, hw⟩ := run_eq_ok.1 h
  obtain ⟨add, args, hargs, hload⟩ := hload
  rw [builds, hargs] at hb
  obtain ⟨load, changed, highest, s', hload', rfl, -, -, -, rfl⟩ := built_eq_ok (.yaml inv) hb
  cases hload.symm.trans hload'
  rw [setGroups_toValue] at hs
  cases hs
  cases hw
  exact ⟨_, rfl⟩

/-- One run takes hosts out of a group and appends others to it. -/
theorem members_of_run (hr : (builder env).Reachable (.yaml cfg)) (hload : LoadsPrevious argv)
    (h : run env argv (.yaml cfg) = (.ok (), .yaml cfg')) (group : String) :
    ∃ new, members cfg' group =
      (members cfg group).filter (· ∈ members cfg' group) ++ new := by
  obtain ⟨inv, hf, hw⟩ := reachable_holds hr
  cases hf
  obtain ⟨hosts, rfl⟩ := run_of_loadsPrevious hload h
  by_cases hrole : ∃ r : Role, r.name = group
  · obtain ⟨r, rfl⟩ := hrole
    rw [members_toValue, members_toValue]
    exact ⟨_, members_place r⟩
  · obtain ⟨inv', hf, hw'⟩ := reachable_holds (.step hr h)
    generalize hcfg : (inv.place env hosts).toValue = cfg' at hf ⊢
    cases hf
    have hnone := members_toValue_of_ne hw' (not_exists.1 hrole)
    exact ⟨[], by simp [hnone]⟩

/-- Hosts that stay in a group through any sequence of additions and deletions keep their order
there, before all hosts that have come later. -/
theorem order_kept (hr : (builder env).Reachable (.yaml cfg₀))
    (h : (keeping env group kept cfg₀).Reachable cfg) :
    ∃ old new, members cfg group = old ++ new ∧ old.Sublist (members cfg₀ group) ∧
      kept ⊆ old := by
  let Inv : Value → Prop := fun cfg => (builder env).Reachable (.yaml cfg) ∧
    ∃ old new, members cfg group = old ++ new ∧ old.Sublist (members cfg₀ group) ∧ kept ⊆ old
  have hinv : Inv cfg := by
    have hinit : ∀ cfg, (keeping env group kept cfg₀).init cfg → Inv cfg := by
      rintro cfg ⟨rfl, hkept⟩
      exact ⟨hr, _, [], (List.append_nil _).symm, .refl _, hkept⟩
    refine h.invariant hinit fun cfg argv cfg' _ hinv hstep => ?_
    obtain ⟨hr, old, new, hmembers, hsub, hold⟩ := hinv
    obtain ⟨hload, hrun, hkept⟩ := hstep
    obtain ⟨later, hlater⟩ := members_of_run hr hload hrun group
    rw [hmembers, List.filter_append, List.append_assoc] at hlater
    refine ⟨.step hr hrun, _, _, hlater, List.filter_sublist.trans hsub, fun h hh => ?_⟩
    exact List.mem_filter.2 ⟨hold hh, decide_eq_true (hkept hh)⟩
  exact hinv.2

end

/-- Of three hosts the first is deleted. -/
theorem order_kept_first_deleted : ∃ cfg cfg',
    run {} ["-node1"] (.yaml cfg) = (.ok (), .yaml cfg') ∧
    members cfg "etcd" = ["node1", "node2", "node3"] ∧
    ∃ old new, members cfg' "etcd" = old ++ new ∧ old.Sublist (members cfg "etcd") ∧
      ["node2", "node3"] ⊆ old := by
  let inv := Inventory.fresh.place {} ⟨[("node1", hostOpts "10.0.0.1" "10.0.0.1"),
    ("node2", hostOpts "10.0.0.2" "10.0.0.2"), ("node3", hostOpts "10.0.0.3" "10.0.0.3")],
    by decide⟩
  have hb : builds {} ["10.0.0.1", "10.0.0.2", "10.0.0.3"] .absent =
      .ok (Inventory.fresh.toValue, ⟨[("node1", hostOpts "10.0.0.1" "10.0.0.1"),
        ("node2", hostOpts "10.0.0.2" "10.0.0.2"), ("node3", hostOpts "10.0.0.3" "10.0.0.3")],
        by decide⟩) := rfl
  have hb' : builds {} ["-node1"] (.yaml inv.toValue) =
      .ok (inv.toValue, ⟨[("node2", hostOpts "10.0.0.2" "10.0.0.2"),
        ("node3", hostOpts "10.0.0.3" "10.0.0.3")], by decide⟩) := rfl
  have hinit : ["node2", "node3"] ⊆ members inv.toValue "etcd" := by decide +kernel
  refine ⟨_, _, run_of_builds hb', by decide +kernel,
    order_kept (.step (.init rfl) (run_of_builds hb))
      (.step (.init ⟨rfl, hinit⟩) ⟨⟨_, _, rfl, rfl⟩, run_of_builds hb', by decide +kernel⟩)⟩

end Kubespray
