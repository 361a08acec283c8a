import Kubespray.Inventory.Runs

/-!
# Route reflectors and the other roles

`set_calico_rr` has two checks that are to keep a route reflector out of `kube_control_plane` and
`kube_node`. They look at the keys of the group and not at its hosts, and `set_kube_node` has no
such check, so the separation rests on the runs. `place_separate` is the step: a run keeps the
groups apart if it does not move a host from one side to the other (`NoConflict`), and by
`place_separate_iff` hardly otherwise. `calicoRr_separate` follows it over every sequence of such
runs.
-/

namespace Kubespray

open Py

/-- No route reflector is in `kube_control_plane` or `kube_node`. -/
def Separate (cfg : Value) : Prop :=
  ∀ h ∈ members cfg "calico_rr", h ∉ members cfg "kube_control_plane" ∧ h ∉ members cfg "kube_node"

instance (cfg : Value) : Decidable (Separate cfg) :=
  inferInstanceAs (Decidable (∀ h ∈ members cfg "calico_rr",
    h ∉ members cfg "kube_control_plane" ∧ h ∉ members cfg "kube_node"))

/-- A run with the host list `hosts` does not turn a route reflector of the configuration that it
starts from into a host of another role, nor one of these into a route reflector. Below the scale
threshold every host gets another role; from it on, the first hosts of the list become route
reflectors. -/
def NoConflict (env : Env) (start : Value) (hosts : OrdDict String Value) : Prop :=
  (hosts.size < env.scaleThreshold → ∀ h ∈ members start "calico_rr", h ∉ hosts.keys) ∧
  (env.scaleThreshold ≤ hosts.size →
    (∀ h ∈ hosts.keys.take (etcdHostsCount hosts), h ≠ "hosts" →
      h ∉ members start "kube_control_plane" ∧ h ∉ members start "kube_node") ∧
    ∀ h ∈ controlPlaneHosts env hosts, h ∉ members start "calico_rr")

section
variable {env : Env} {inv : Inventory} {hosts : OrdDict String Value} {h : String}

/-- `Separate` in terms of the groups of an inventory. -/
theorem separate_toValue :
    Separate inv.toValue ↔ ∀ h ∈ (inv.group .calicoRr).keys,
      h ∉ (inv.group .kubeControlPlane).keys ∧ h ∉ (inv.group .kubeNode).keys := by
  rw [Separate, members_calicoRr, members_kubeControlPlane, members_kubeNode]

/-- A run without conflicts keeps the groups apart. -/
theorem place_separate (hw : inv.WellFormed) (hsep : Separate inv.toValue)
    (hno : NoConflict env inv.toValue hosts) : Separate (inv.place env hosts).toValue := by
  rw [separate_toValue] at hsep ⊢
  simp only [NoConflict, members_calicoRr, members_kubeControlPlane, members_kubeNode] at hno
  obtain ⟨hbelow, habove⟩ := hno
  intro h hrr
  rcases Inventory.mem_place_group.1 hrr with hnew | ⟨hold, hkept⟩
  · -- a new route reflector: the run is at scale, and `h` is one of its etcd hosts
    simp only [Inventory.added, Inventory.calicoRrHosts] at hnew
    split at hnew
    · next hs =>
      obtain ⟨he, hne⟩ := List.mem_filter.1 hnew
      obtain ⟨hcp, hkn⟩ := (habove hs).1 h he (by simpa using hne)
      have hetcd : h ∈ ((inv.place env hosts).group .etcd).keys :=
        Inventory.mem_place_group.2 (.inl he)
      refine ⟨fun hm => ?_, fun hm => ?_⟩
      · rcases Inventory.mem_place_group.1 hm with hm | ⟨hm, -⟩
        · exact Inventory.not_mem_controlPlaneHosts hs he hm
        · exact hcp hm
      · rcases Inventory.mem_place_group.1 hm with hm | ⟨hm, -⟩
        · exact Inventory.not_mem_added_kubeNode hs hetcd hm
        · exact hkn hm
    · cases hnew
  · -- an old route reflector, which was apart from the old members of the other groups
    obtain ⟨hcp, hkn⟩ := hsep h hold
    have hetcd : h ∈ ((inv.place env hosts).group .etcd).keys :=
      Inventory.mem_place_group.2 (.inr ⟨hw.calicoRr_etcd h hold, hkept⟩)
    refine ⟨fun hm => ?_, fun hm => ?_⟩
    · rcases Inventory.mem_place_group.1 hm with hm | ⟨hm, -⟩
      · rcases Int.lt_or_le hosts.size env.scaleThreshold with hs | hs
        · exact hbelow hs h hold (Inventory.mem_of_mem_added hm)
        · exact (habove hs).2 h hm hold
      · exact hcp hm
    · rcases Inventory.mem_place_group.1 hm with hm | ⟨hm, -⟩
      · rcases Int.lt_or_le hosts.size env.scaleThreshold with hs | hs
        · exact hbelow hs h hold (Inventory.mem_of_mem_added hm)
        · exact Inventory.not_mem_added_kubeNode hs hetcd hm
      · exact hkn hm

/-- Where the purge keeps no host that the list has lost, only a run without conflicts keeps the
groups apart: a host on both sides stays on both. -/
theorem place_separate_iff (hw : inv.WellFormed) (hsep : Separate inv.toValue)
    (hsize : (inv.place env hosts).hosts.size = hosts.size) :
    Separate (inv.place env hosts).toValue ↔ NoConflict env inv.toValue hosts := by
  refine ⟨fun hplace => ?_, place_separate hw hsep⟩
  rw [separate_toValue] at hplace
  simp only [NoConflict, members_calicoRr, members_kubeControlPlane, members_kubeNode]
  have hkept : ∀ (r : Role), ∀ h ∈ (inv.group r).keys, h ∈ hosts.keys →
      h ∈ ((inv.place env hosts).group r).keys :=
    fun _ _ hm hk => Inventory.mem_place_group.2 (.inr ⟨hm, .inl hk⟩)
  refine ⟨fun hs h hrr hk => ?_, fun hs => ⟨fun h he hne => ?_, fun h hcp hrr => ?_⟩⟩
  · -- below the scale threshold `h` is in `kube_control_plane`, or becomes a node
    obtain ⟨hcp, hkn⟩ := hplace h (hkept .calicoRr h hrr hk)
    refine hkn (Inventory.mem_place_group.2 (.inl (Inventory.mem_added_kubeNode.2 ⟨hk, ?_, ?_⟩)))
    · rw [hsize]
      intro hs'
      omega
    · exact fun _ => hcp
  · have hrr : h ∈ Inventory.calicoRrHosts env hosts := by
      rw [Inventory.calicoRrHosts, if_pos hs]
      exact List.mem_filter.2 ⟨he, by simpa using hne⟩
    obtain ⟨hcp, hkn⟩ := hplace h (Inventory.mem_place_group.2 (.inl hrr))
    have hk := List.mem_of_mem_take he
    exact ⟨fun hm => hcp (hkept .kubeControlPlane h hm hk), fun hm => hkn (hkept .kubeNode h hm hk)⟩
  · have hadd : h ∈ inv.added env hosts .kubeControlPlane := hcp
    exact (hplace h (hkept .calicoRr h hrr (Inventory.mem_of_mem_added hadd))).1
      (Inventory.mem_place_group.2 (.inl hadd))

theorem fresh_separate : Separate Inventory.fresh.toValue := by decide

end

/-- After runs that meet `NoConflict` no route reflector has another role. -/
theorem calicoRr_separate {env : Env} {cfg : Value}
    (h : ((builder env).guard (RunMeets env (NoConflict env))).Reachable (.yaml cfg)) :
    Separate cfg := by
  obtain ⟨inv, rfl, -, hsep⟩ := guarded_invariant (P := fun inv => Separate inv.toValue)
    fresh_separate (fun base hosts hw hsep hno _ => place_separate hw hsep hno) h
  exact hsep

/-- Six hosts are created at a scale threshold of six, which meets `NoConflict`: the three route
reflectors have no other role. -/
theorem calicoRr_separate_six_hosts :
    ∃ cfg, (members cfg "calico_rr").length = 3 ∧ Separate cfg := by
  have hb : builds { scaleThreshold := 6 }
      ["10.0.0.1", "10.0.0.2", "10.0.0.3", "10.0.0.4", "10.0.0.5", "10.0.0.6"] .absent =
      .ok (Inventory.fresh.toValue, ⟨[("node1", hostOpts "10.0.0.1" "10.0.0.1"),
        ("node2", hostOpts "10.0.0.2" "10.0.0.2"), ("node3", hostOpts "10.0.0.3" "10.0.0.3"),
        ("node4", hostOpts "10.0.0.4" "10.0.0.4"), ("node5", hostOpts "10.0.0.5" "10.0.0.5"),
        ("node6", hostOpts "10.0.0.6" "10.0.0.6")], by decide⟩) := rfl
  refine ⟨_, rfl, @calicoRr_separate { scaleThreshold := 6 } _
    (.step (.init rfl) ⟨?_, run_of_builds hb⟩)⟩
  intro start hosts h
  rw [hb] at h
  cases h
  exact ⟨by decide, by decide⟩

/-- Five hosts are created and a sixth is added at a scale threshold of six: the first three become
route reflectors and stay in `kube_control_plane` and `kube_node`. -/
theorem calicoRr_separate_fails : ¬ ∀ (env : Env) (cfg : Value),
    env.scaleThreshold ≤ env.massiveScaleThreshold →
    3 + env.kubeControlHosts < env.scaleThreshold →
    (builder env).Reachable (.yaml cfg) → Separate cfg := by
  intro h
  obtain ⟨cfg, hcfg, hsep⟩ : ∃ cfg,
      history { scaleThreshold := 6 }
        [["10.0.0.1", "10.0.0.2", "10.0.0.3", "10.0.0.4", "10.0.0.5"], ["add", "10.0.0.6"]] =
          some cfg ∧ decide (Separate cfg) = false :=
    Option.map_eq_some_iff.1 (by decide +kernel)
  exact of_decide_eq_false hsep (h _ cfg (by decide) (by decide) (reachable_of_history hcfg))

end Kubespray
