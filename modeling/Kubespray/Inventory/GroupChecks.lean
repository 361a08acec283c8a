import Kubespray.Inventory.Creation

/-!
# The checks of the playbooks on the groups

The assertions of `roles/kubernetes/preinstall/tasks/0020-verify-settings.yml` and of
`roles/network_plugin/calico/tasks/check.yml` about the groups of an inventory, and which created
inventories pass them. The last one asks that every route reflector is in the group `k8s_cluster`,
in itself or in a child group; the builder makes `calico_rr` no child of `k8s_cluster`.
-/

namespace Kubespray

open Py

/-- The child groups of a group. -/
def childGroups (cfg : Value) (group : String) : List String :=
  match cfg.getPath ["all", "children", group, "children"] with
  | .ok (.dict kvs) => Assoc.keys kvs
  | _ => []

/-- The host is in the group, or in a group below it. -/
inductive InGroup (cfg : Value) : String → String → Prop
  | host {group h : String} : h ∈ members cfg group → InGroup cfg group h
  | child {group sub h : String} : sub ∈ childGroups cfg group → InGroup cfg sub h →
      InGroup cfg group h

/-- The assertions on the groups. -/
structure PassesGroupChecks (cfg : Value) : Prop where
  /-- Stop if either kube_control_plane or kube_node group is empty. -/
  nonempty : members cfg "kube_control_plane" ≠ [] ∧ members cfg "kube_node" ≠ []
  /-- Stop if even number of etcd hosts. -/
  etcd_odd : (members cfg "etcd").length % 2 = 1
  /-- Check that calico_rr nodes are in k8s_cluster group. -/
  calicoRr : ∀ h ∈ members cfg "calico_rr", InGroup cfg "k8s_cluster" h

section
variable {env : Env} {inv : Inventory} {hosts : OrdDict String Value} {h : String}

/-- A group of the builder has no child groups, so it has its own hosts only. -/
theorem inGroup_name {r : Role} : InGroup inv.toValue r.name h ↔ h ∈ (inv.group r).keys := by
  constructor
  · intro hg
    cases hg with
    | host hm => rwa [members_toValue] at hm
    | child hs _ => cases r <;> cases hs
  · intro hm
    exact .host (by rwa [members_toValue])

/-- The hosts of `k8s_cluster` are those of its two child groups. -/
theorem inGroup_k8sCluster (hk : inv.k8sCluster = k8sClusterGroup) :
    InGroup inv.toValue "k8s_cluster" h ↔
      h ∈ (inv.group .kubeControlPlane).keys ∨ h ∈ (inv.group .kubeNode).keys := by
  have hmem : members inv.toValue "k8s_cluster" = [] := by
    rw [members, show inv.toValue.getPath ["all", "children", "k8s_cluster", "hosts"] =
      (inv.k8sCluster.getItem "hosts" >>= pure) from rfl, hk]
    rfl
  have hchild : childGroups inv.toValue "k8s_cluster" = ["kube_control_plane", "kube_node"] := by
    rw [childGroups, show inv.toValue.getPath ["all", "children", "k8s_cluster", "children"] =
      (inv.k8sCluster.getItem "children" >>= pure) from rfl, hk]
    rfl
  constructor
  · intro hg
    cases hg with
    | host hm => rw [hmem] at hm; cases hm
    | child hs hg =>
      rw [hchild] at hs
      rcases List.mem_cons.1 hs with rfl | hs
      · exact .inl (inGroup_name.1 hg)
      · obtain rfl := List.mem_singleton.1 hs
        exact .inr (inGroup_name.1 hg)
  · rintro (hm | hm)
    · exact .child (by rw [hchild]; exact .head _) (inGroup_name (r := .kubeControlPlane).2 hm)
    · exact .child (by rw [hchild]; exact .tail _ (.head _)) (inGroup_name (r := .kubeNode).2 hm)

/-- Of two different hosts one is not named `hosts`; so a list with two has a route reflector. -/
theorem exists_mem_calicoRrHosts (hs : env.scaleThreshold ≤ hosts.size)
    (h2 : 2 ≤ (Inventory.etcdHosts hosts).length) : ∃ h, h ∈ Inventory.calicoRrHosts env hosts := by
  have hnd : (Inventory.etcdHosts hosts).Nodup := hosts.nodup_keys.sublist (List.take_sublist _ _)
  rw [Inventory.calicoRrHosts, if_pos hs]
  obtain ⟨a, b, l, hl⟩ : ∃ a b l, Inventory.etcdHosts hosts = a :: b :: l := by
    obtain ⟨a, l, hl⟩ := List.exists_cons_of_length_pos (Nat.lt_of_lt_of_le Nat.two_pos h2)
    rw [hl, List.length_cons] at h2
    obtain ⟨b, l, rfl⟩ := List.exists_cons_of_length_pos (Nat.lt_of_succ_lt_succ h2)
    exact ⟨a, b, l, hl⟩
  rw [hl] at hnd ⊢
  by_cases ha : a = "hosts"
  · have hb : b ≠ "hosts" := by
      intro hb
      rw [ha, hb] at hnd
      simp at hnd
    exact ⟨b, List.mem_filter.2 ⟨.tail _ (.head _), by simpa using hb⟩⟩
  · exact ⟨a, List.mem_filter.2 ⟨.head _, by simpa using ha⟩⟩

/-- From the scale threshold on a route reflector is in no group that the checks ask for. -/
theorem fresh_not_passes (hS : 3 ≤ env.scaleThreshold) (hs : env.scaleThreshold ≤ hosts.size) :
    ¬ PassesGroupChecks (Inventory.fresh.place env hosts).toValue := by
  intro hp
  have h2 : 2 ≤ (Inventory.etcdHosts hosts).length := by
    rw [Inventory.length_etcdHosts_eq_min, etcdHostsCount, if_pos (by omega)]
    omega
  obtain ⟨h, hrr⟩ := exists_mem_calicoRrHosts hs h2
  have he := Inventory.mem_etcdHosts_of_mem_calicoRrHosts hrr
  have hmem : h ∈ members (Inventory.fresh.place env hosts).toValue "calico_rr" := by
    rw [members_calicoRr, Inventory.fresh_place_group]
    exact hrr
  rcases (inGroup_k8sCluster rfl).1 (hp.calicoRr h hmem) with hm | hm
  · rw [Inventory.fresh_place_group] at hm
    exact Inventory.not_mem_controlPlaneHosts hs he hm
  · rw [Inventory.fresh_place_group] at hm
    refine Inventory.not_mem_added_kubeNode hs ?_ hm
    rw [Inventory.fresh_place_group]
    exact he

/-- Below it there are a control plane host, a node, an odd number of etcd hosts and no route
reflector. -/
theorem fresh_passes (hK : 1 ≤ env.kubeControlHosts)
    (hSM : env.scaleThreshold ≤ env.massiveScaleThreshold) (hpos : 0 < hosts.size)
    (hs : (hosts.size : Int) < env.scaleThreshold) :
    PassesGroupChecks (Inventory.fresh.place env hosts).toValue := by
  refine ⟨⟨?_, ?_⟩, ?_, ?_⟩
  · rw [members_kubeControlPlane, Inventory.fresh_place_group]
    show controlPlaneHosts env hosts ≠ []
    rw [controlPlaneHosts, if_neg (by omega), slice_of_nonneg _ _ (by omega), List.drop_zero]
    intro hnil
    have := congrArg List.length hnil
    rw [List.length_take, OrdDict.length_keys, List.length_nil] at this
    omega
  · rw [members_kubeNode, Inventory.fresh_place_group]
    obtain ⟨h, hm⟩ := List.exists_mem_of_length_pos (l := hosts.keys) (by simpa using hpos)
    refine List.ne_nil_of_mem (a := h) (Inventory.mem_added_kubeNode.2 ⟨hm, ?_, ?_⟩)
    · rw [Inventory.fresh_place_hosts]
      intro hs'
      omega
    · rw [Inventory.fresh_place_hosts]
      intro hm'
      omega
  · rw [members_etcd, Inventory.fresh_place_group]
    show (Inventory.etcdHosts hosts).length % 2 = 1
    rw [Inventory.length_etcdHosts_eq_min, etcdHostsCount]
    split_ifs <;> omega
  · rw [members_calicoRr, Inventory.fresh_place_group]
    show ∀ h ∈ Inventory.calicoRrHosts env hosts, _
    rw [Inventory.calicoRrHosts, if_neg (by omega)]
    exact fun h hm => absurd hm List.not_mem_nil

/-- A created inventory passes the checks iff it is below the scale threshold: from there on it has
route reflectors, and none of them is in `k8s_cluster`. -/
theorem fresh_passes_iff (hK : 1 ≤ env.kubeControlHosts)
    (hS : 3 + env.kubeControlHosts < env.scaleThreshold)
    (hSM : env.scaleThreshold ≤ env.massiveScaleThreshold) (hpos : 0 < hosts.size) :
    PassesGroupChecks (Inventory.fresh.place env hosts).toValue ↔
      (hosts.size : Int) < env.scaleThreshold := by
  constructor
  · intro hp
    by_contra hs
    exact fresh_not_passes (by omega) (by omega) hp
  · exact fresh_passes hK hSM hpos

end

/-- Creating an inventory from addresses: whatever it writes passes the checks iff it has fewer
hosts than the scale threshold. With generated names and distinct ips, and no argument spelled like
a generated name, it does write an inventory, with one host for each argument. -/
theorem creation_passes {env : Env} {args : List (AddArg env)} (hK : 1 ≤ env.kubeControlHosts)
    (hS : 3 + env.kubeControlHosts < env.scaleThreshold)
    (hSM : env.scaleThreshold ≤ env.massiveScaleThreshold) (hne : args ≠ [])
    (ha : ∀ a ∈ args, a.IsAddress) (file : ConfigFile) :
    (∀ cfg, run env (args.map AddArg.text) file = (.ok (), .yaml cfg) →
      (PassesGroupChecks cfg ↔ ((hostsOf cfg).length : Int) < env.scaleThreshold)) ∧
    (env.useRealHostname = false → (args.map AddArg.ip).Nodup →
      (∀ a ∈ args, ∀ i, a.text ≠ generatedName env i) →
      ∃ cfg, run env (args.map AddArg.text) file = (.ok (), .yaml cfg) ∧
        (hostsOf cfg).length = args.length ∧
        (PassesGroupChecks cfg ↔ (args.length : Int) < env.scaleThreshold)) := by
  constructor
  · intro cfg hrun
    obtain ⟨hosts, hpos, rfl⟩ := run_creation hne ha hrun
    rw [fresh_passes_iff hK hS hSM hpos, hostsOf_toValue, Inventory.fresh_place_hosts]
    rfl
  · intro hreal hips htext
    obtain ⟨hosts, hb, hitems⟩ := builds_creation hreal hne ha hips htext
    have hlen : hosts.size = args.length := by
      rw [OrdDict.size, hitems, AddArg.length_generatedHosts]
    have hpos : 0 < hosts.size := by
      rw [hlen]
      exact List.length_pos_of_ne_nil hne
    refine ⟨_, run_of_builds hb, ?_, ?_⟩
    · rw [hostsOf_toValue, Inventory.fresh_place_hosts]
      exact hlen
    · rw [fresh_passes_iff hK hS hSM hpos, hlen]

/-- Three hosts pass the checks. -/
theorem creation_passes_three_hosts :
    ∃ cfg, run {} ["10.0.0.1", "10.0.0.2", "10.0.0.3"] .absent = (.ok (), .yaml cfg) ∧
      PassesGroupChecks cfg := by
  have htexts : ∀ ip ∈ ["10.0.0.1", "10.0.0.2", "10.0.0.3"], AddArg.IsAddressText {} ip := by decide
  have hne : AddArg.ofIps {} _ htexts ≠ [] := AddArg.ofIps_ne_nil (List.cons_ne_nil _ _)
  have ha : ∀ a ∈ AddArg.ofIps {} _ htexts, a.IsAddress := AddArg.ofIps_isAddress
  have hips : ((AddArg.ofIps {} _ htexts).map AddArg.ip).Nodup := by
    rw [AddArg.map_ip_ofIps]
    decide
  have h := creation_passes (by decide) (by decide) (by decide) hne ha .absent
  obtain ⟨cfg, hrun, -, hpass⟩ := h.2 rfl hips fun a hm =>
    AddArg.text_ne_generatedName (ha a hm).name (by decide)
  rw [AddArg.length_ofIps] at hpass
  exact ⟨cfg, hrun, hpass.2 (by decide)⟩

/-- Six hosts at a scale threshold of six do not: their route reflectors are not in
`k8s_cluster`. -/
theorem creation_passes_fails : ¬ ∀ (env : Env) (args : List (AddArg env)) (file : ConfigFile)
    (cfg : Value), 1 ≤ env.kubeControlHosts → 3 + env.kubeControlHosts < env.scaleThreshold →
    env.scaleThreshold ≤ env.massiveScaleThreshold → args ≠ [] → (∀ a ∈ args, a.IsAddress) →
    (args.map AddArg.ip).Nodup → run env (args.map AddArg.text) file = (.ok (), .yaml cfg) →
    PassesGroupChecks cfg := by
  intro h
  let env : Env := { scaleThreshold := 6 }
  have htexts : ∀ ip ∈ ["10.0.0.1", "10.0.0.2", "10.0.0.3", "10.0.0.4", "10.0.0.5", "10.0.0.6"],
      AddArg.IsAddressText env ip := by decide
  let args : List (AddArg env) := AddArg.ofIps env _ htexts
  have hne : args ≠ [] := AddArg.ofIps_ne_nil (List.cons_ne_nil _ _)
  have ha : ∀ a ∈ args, a.IsAddress := AddArg.ofIps_isAddress
  have hips : (args.map AddArg.ip).Nodup := by
    rw [AddArg.map_ip_ofIps]
    decide
  obtain ⟨hosts, hb, hitems⟩ : ∃ hosts,
      builds env (args.map AddArg.text) .absent = .ok (Inventory.fresh.toValue, hosts) ∧
        hosts.items = AddArg.generatedHosts 1 args :=
    builds_creation rfl hne ha hips fun a hm =>
      AddArg.text_ne_generatedName (ha a hm).name (by decide)
  have hlen : hosts.size = 6 := by
    rw [OrdDict.size, hitems, AddArg.length_generatedHosts]
    rfl
  have hpass := h env args .absent _ (by decide) (by decide) (by decide) hne ha hips
    (run_of_builds hb)
  have hlt := (fresh_passes_iff (by decide) (by decide) (by decide) (by omega)).1 hpass
  rw [hlen] at hlt
  exact absurd hlt (by decide)

end Kubespray
