import Kubespray.Inventory.Runs

/-!
# Creating an inventory

Runs whose arguments add hosts, and what the first such run writes: the roles of the hosts for
every number of hosts and every setting of the thresholds (`creation_roles`), and which of the
checks of the playbooks the groups pass (`creation_passes`).
-/

namespace Kubespray

open Py

/-! ## Runs whose arguments add hosts -/

section
variable {env : Env} {file : ConfigFile} {args : List (AddArg env)}

/-- The first argument of a list of addresses is no command. -/
theorem text_not_mem_availableCommands {a : AddArg env} (ha : a.IsAddress) :
    a.text ∉ availableCommands := by
  have hall : ∀ c ∈ availableCommands,
      c.toList.head?.any (fun d => decide (d.toNat < 128) && !d.isDigit) = true := by decide
  intro hm
  have hc := hall _ hm
  have hdigit := a.text_first_digit ha.name
  cases hl : a.text.toList.head? with
  | none => rw [hl] at hc; cases hc
  | some d =>
    rw [hl] at hc hdigit
    obtain ⟨hlt, hnd⟩ : d.toNat < 128 ∧ d.isDigit = false := by simpa using hc
    exact CharTable.ne_of_isdigit hdigit hlt hnd rfl

/-- A list of addresses is the argument list of a creation. -/
theorem inventoryArgs_texts (hne : args ≠ []) (ha : ∀ a ∈ args, a.IsAddress) :
    inventoryArgs (args.map AddArg.text) = some (false, args.map AddArg.text) := by
  cases args with
  | nil => exact absurd rfl hne
  | cons a args =>
    rw [List.map_cons, inventoryArgs, if_pos (text_not_mem_availableCommands (ha a (.head _)))]

/-- A list of addresses asks for the previous inventory only after `add`. -/
theorem loadPreviousConfig_texts {add : Bool} (ha : ∀ a ∈ args, a.IsAddress) :
    loadPreviousConfig add (args.map AddArg.text) = .ok add := by
  cases args with
  | nil => rfl
  | cons a args =>
    have hdigit := a.text_first_digit (ha a (.head _)).name
    cases hl : a.text.toList with
    | nil => rw [hl] at hdigit; cases hdigit
    | cons c cs =>
      have hc : env.chars.isdigit c = true := by simpa [hl] using hdigit
      have hdash : c ≠ '-' := CharTable.ne_of_isdigit hc (by decide) (by decide)
      simp [loadPreviousConfig, hl, hdash]

/-- No address is a range. -/
theorem range2ips_texts (ha : ∀ a ∈ args, a.IsAddress) :
    range2ips env (args.map AddArg.text) = .ok (args.map AddArg.text) := by
  refine range2ips_eq_self fun host hh => ?_
  obtain ⟨a, hm, rfl⟩ := List.mem_map.1 hh
  simp [isRange, (ha a hm).noRange]

/-- The host list of a run whose arguments are addresses. -/
theorem built_texts (add : Bool) (inv : Inventory) (hreal : env.useRealHostname = false)
    (hne : args ≠ []) (ha : ∀ a ∈ args, a.IsAddress) {highest : Nat}
    (hstart : startConfig add file = .ok (inv.base add).toValue)
    (hid : highestHostId env (inv.base add).hosts.keys = .ok highest)
    (hips : HasIps (inv.base add).hosts) :
    built env add (args.map AddArg.text) file =
      .ok ((inv.base add).toValue, (AddArg.adds args ((inv.base add).hosts, highest + 1)).1) := by
  obtain ⟨s', hl, hs'⟩ := AddArg.loop_text hreal args
    (s := { allHosts := (inv.base add).hosts, nextHostId := highest + 1 }) hips
  have hb : buildHostnames env (args.map AddArg.text) add (inv.base add).toValue =
      .ok (AddArg.adds args ((inv.base add).hosts, highest + 1)).1 := by
    refine buildHostnames_eq_ok.2 ⟨_, s', initialLocals_base.2 ⟨highest, hid, rfl⟩, hl, ?_⟩
    rw [← hs']
  have hemp : (args.map AddArg.text).isEmpty = false := by simpa using hne
  simp [built, loadPreviousConfig_texts ha, hstart, hemp, range2ips_texts ha, hb]

/-- A creation does not read the file. -/
theorem builds_creation_file (hne : args ≠ []) (ha : ∀ a ∈ args, a.IsAddress) :
    builds env (args.map AddArg.text) file = builds env (args.map AddArg.text) .absent := by
  simp only [builds, inventoryArgs_texts hne ha, built, loadPreviousConfig_texts ha, ok_bind]
  rfl

/-- What a creation writes: the placement of a list with at least one host. -/
theorem run_creation (hne : args ≠ []) (ha : ∀ a ∈ args, a.IsAddress) {cfg : Value}
    (h : run env (args.map AddArg.text) file = (.ok (), .yaml cfg)) :
    ∃ hosts : OrdDict String Value, 0 < hosts.size ∧
      cfg = (Inventory.fresh.place env hosts).toValue := by
  obtain ⟨start, hosts, w, hb, hs, hw⟩ := run_eq_ok.1 h
  rw [builds_creation_file hne ha] at hb
  simp only [builds, inventoryArgs_texts hne ha] at hb
  obtain ⟨load, changed, highest, s', hload, rfl, hr, -, hloop, rfl⟩ := built_eq_ok .absent hb
  rw [loadPreviousConfig_texts ha] at hload
  rw [range2ips_texts ha] at hr
  cases hload
  cases hr
  cases hw
  rw [setGroups_toValue] at hs
  cases hs
  refine ⟨s'.allHosts, ?_, rfl⟩
  -- the last argument leaves a host
  rw [← List.dropLast_append_getLast hne, List.map_append, foldlM_append_eq_ok] at hloop
  obtain ⟨s₁, -, hlast⟩ := hloop
  rw [List.map_singleton, List.foldlM_cons, bind_eq_ok] at hlast
  obtain ⟨s₂, hlast, hs₂⟩ := hlast
  cases hs₂
  have hdigit := (args.getLast hne).text_first_digit (ha _ (List.getLast_mem hne)).name
  rw [AddArg.argument_of_digit hdigit] at hlast
  exact AddArg.ipArgument_size_pos hlast

/-- The host list of a creation: the hosts in the order of the addresses, numbered from one. -/
theorem builds_creation (hreal : env.useRealHostname = false) (hne : args ≠ [])
    (ha : ∀ a ∈ args, a.IsAddress) (hips : (args.map AddArg.ip).Nodup)
    (htext : ∀ a ∈ args, ∀ i, a.text ≠ generatedName env i) :
    ∃ hosts, builds env (args.map AddArg.text) file = .ok (Inventory.fresh.toValue, hosts) ∧
      hosts.items = AddArg.generatedHosts 1 args := by
  refine ⟨(AddArg.adds args (.empty, 1)).1, ?_, ?_⟩
  · rw [builds, inventoryArgs_texts hne ha]
    exact built_texts false .fresh hreal hne ha rfl rfl fun p hp => absurd hp List.not_mem_nil
  · have h := AddArg.adds_generated args .empty 1 ha hips (fun _ _ => rfl)
      (fun a hm => ⟨List.not_mem_nil, htext a hm⟩) (fun _ _ => List.not_mem_nil)
    exact h.1

end

/-! ## The roles of the hosts -/

/-- The number of etcd hosts for `n` hosts. -/
def etcdCount (n : Nat) : Nat := if 3 ≤ n then 3 else 1

/-- The roles of the hosts of an inventory, by their position. -/
structure RolesPlaced (env : Env) (cfg : Value) : Prop where
  /-- The first hosts. -/
  etcd : members cfg "etcd" = (hostNames cfg).take (etcdCount (hostNames cfg).length)
  /-- The first hosts below the scale threshold, and the hosts after the etcd hosts from it on. -/
  controlPlane : members cfg "kube_control_plane" =
    if (hostNames cfg).length < env.scaleThreshold then
      (hostNames cfg).take env.kubeControlHosts.toNat
    else ((hostNames cfg).drop (etcdCount (hostNames cfg).length)).take env.kubeControlHosts.toNat
  /-- All hosts below the scale threshold. From it on no etcd hosts, and from the second threshold
  on no control plane hosts either. -/
  node : members cfg "kube_node" =
    if (hostNames cfg).length < env.scaleThreshold then hostNames cfg
    else if (hostNames cfg).length < env.massiveScaleThreshold then
      (hostNames cfg).filter fun h => h ∉ members cfg "etcd"
    else (hostNames cfg).filter fun h =>
      h ∉ members cfg "etcd" ∧ h ∉ members cfg "kube_control_plane"
  /-- The etcd hosts from the scale threshold on. -/
  calicoRr : members cfg "calico_rr" =
    if (hostNames cfg).length < env.scaleThreshold then [] else members cfg "etcd"

section
variable {env : Env} {cfg : Value} {hosts : OrdDict String Value} {h : String}

/-- Every host has a role. -/
theorem RolesPlaced.covered (hp : RolesPlaced env cfg) (hh : h ∈ hostNames cfg) :
    h ∈ members cfg "etcd" ∨ h ∈ members cfg "kube_control_plane" ∨
      h ∈ members cfg "kube_node" := by
  by_cases he : h ∈ members cfg "etcd"
  · exact .inl he
  · by_cases hc : h ∈ members cfg "kube_control_plane"
    · exact .inr (.inl hc)
    · refine .inr (.inr ?_)
      rw [hp.node]
      split_ifs
      · exact hh
      · exact List.mem_filter.2 ⟨hh, by simpa using he⟩
      · exact List.mem_filter.2 ⟨hh, by simpa using ⟨he, hc⟩⟩

/-- The members of the three groups are hosts. -/
theorem RolesPlaced.mem_hostNames (hp : RolesPlaced env cfg)
    (hm : h ∈ members cfg "etcd" ∨ h ∈ members cfg "kube_control_plane" ∨
      h ∈ members cfg "kube_node") : h ∈ hostNames cfg := by
  rcases hm with hm | hm | hm
  · rw [hp.etcd] at hm
    exact List.mem_of_mem_take hm
  · rw [hp.controlPlane] at hm
    split at hm
    · exact List.mem_of_mem_take hm
    · exact List.mem_of_mem_drop (List.mem_of_mem_take hm)
  · rw [hp.node] at hm
    split_ifs at hm
    · exact hm
    · exact List.mem_of_mem_filter hm
    · exact List.mem_of_mem_filter hm

/-- From the scale threshold on, an etcd host has no other of the three roles. -/
theorem RolesPlaced.etcd_apart (hp : RolesPlaced env cfg) (hnd : (hostNames cfg).Nodup)
    (hs : env.scaleThreshold ≤ (hostNames cfg).length) (he : h ∈ members cfg "etcd") :
    h ∉ members cfg "kube_control_plane" ∧ h ∉ members cfg "kube_node" := by
  refine ⟨fun hm => ?_, fun hm => ?_⟩
  · rw [hp.controlPlane, if_neg (by omega)] at hm
    rw [hp.etcd] at he
    rw [← List.take_append_drop (etcdCount (hostNames cfg).length) (hostNames cfg),
      List.nodup_append] at hnd
    exact hnd.2.2 h he h (List.mem_of_mem_take hm) rfl
  · rw [hp.node, if_neg (by omega)] at hm
    split_ifs at hm
    · exact absurd he (by simpa using (List.mem_filter.1 hm).2)
    · have := (List.mem_filter.1 hm).2
      simp only [decide_eq_true_eq] at this
      exact this.1 he

/-- From the second threshold on, a control plane host is not in `kube_node`. -/
theorem RolesPlaced.controlPlane_apart (hp : RolesPlaced env cfg)
    (hSM : env.scaleThreshold ≤ env.massiveScaleThreshold)
    (hm : env.massiveScaleThreshold ≤ (hostNames cfg).length)
    (hc : h ∈ members cfg "kube_control_plane") : h ∉ members cfg "kube_node" := by
  intro hn
  rw [hp.node, if_neg (by omega), if_neg (by omega)] at hn
  have := (List.mem_filter.1 hn).2
  simp only [decide_eq_true_eq] at this
  exact this.2 hc

/-- The control plane hosts by their position. -/
theorem controlPlaneHosts_eq (hK : 0 ≤ env.kubeControlHosts) :
    controlPlaneHosts env hosts =
      if hosts.size < env.scaleThreshold then hosts.keys.take env.kubeControlHosts.toNat
      else (hosts.keys.drop (etcdHostsCount hosts)).take env.kubeControlHosts.toNat := by
  rw [controlPlaneHosts]
  by_cases hs : env.scaleThreshold ≤ hosts.size
  · have hhi : ((etcdHostsCount hosts : Int) + env.kubeControlHosts).toNat =
        etcdHostsCount hosts + env.kubeControlHosts.toNat := by omega
    rw [if_pos hs, if_neg (by omega), slice_of_nonneg _ _ (by omega), hhi, List.drop_take,
      Nat.add_sub_cancel_left]
  · rw [if_neg hs, if_pos (by omega), slice_of_nonneg _ _ hK, List.drop_zero]

/-- The nodes of a creation by their other roles. -/
theorem fresh_nodes (hSM : env.scaleThreshold ≤ env.massiveScaleThreshold) :
    hosts.keys.filter ((Inventory.fresh.withControlPlane env hosts).nodeEligible env) =
      if hosts.size < env.scaleThreshold then hosts.keys
      else if hosts.size < env.massiveScaleThreshold then
        hosts.keys.filter fun h => h ∉ Inventory.etcdHosts hosts
      else hosts.keys.filter fun h =>
        h ∉ Inventory.etcdHosts hosts ∧ h ∉ controlPlaneHosts env hosts := by
  have hh : (Inventory.fresh.withControlPlane env hosts).hosts = hosts :=
    Inventory.fresh_place_hosts env
  have he : ((Inventory.fresh.withControlPlane env hosts).group .etcd).keys =
      Inventory.etcdHosts hosts := Inventory.fresh_place_group env .etcd
  have hc : ((Inventory.fresh.withControlPlane env hosts).group .kubeControlPlane).keys =
      controlPlaneHosts env hosts := Inventory.fresh_place_group env .kubeControlPlane
  split_ifs with hs hm
  · refine List.filter_eq_self.2 fun h _ => ?_
    have hs' : ¬ env.scaleThreshold ≤ hosts.size := by omega
    have hm' : ¬ env.massiveScaleThreshold ≤ hosts.size := by omega
    simp only [Inventory.nodeEligible, hh, hs', hm', decide_false, Bool.false_and, Bool.not_false,
      Bool.and_self]
  · refine List.filter_congr fun h _ => ?_
    have hs' : env.scaleThreshold ≤ hosts.size := by omega
    have hm' : ¬ env.massiveScaleThreshold ≤ hosts.size := by omega
    simp only [Inventory.nodeEligible, hh, he, hs', hm', decide_true, decide_false, Bool.true_and,
      Bool.false_and, Bool.not_false, Bool.and_true, decide_not]
  · refine List.filter_congr fun h _ => ?_
    have hs' : env.scaleThreshold ≤ hosts.size := by omega
    have hm' : env.massiveScaleThreshold ≤ hosts.size := by omega
    simp only [Inventory.nodeEligible, hh, he, hc, hs', hm', decide_true, Bool.true_and,
      Bool.decide_and, decide_not]

/-- The route reflectors are the etcd hosts, from the scale threshold on. -/
theorem calicoRrHosts_eq (hname : "hosts" ∉ hosts.keys) :
    Inventory.calicoRrHosts env hosts =
      if hosts.size < env.scaleThreshold then [] else Inventory.etcdHosts hosts := by
  by_cases hs : env.scaleThreshold ≤ hosts.size
  · rw [Inventory.calicoRrHosts, if_pos hs, if_neg (by omega)]
    refine List.filter_eq_self.2 fun h hm => ?_
    have hne : h ≠ "hosts" := fun he => hname (he ▸ List.mem_of_mem_take hm)
    simpa using hne
  · rw [Inventory.calicoRrHosts, if_neg hs, if_pos (by omega)]

/-- The passes of a creation place the roles of any host list. -/
theorem fresh_rolesPlaced (hK : 0 ≤ env.kubeControlHosts)
    (hSM : env.scaleThreshold ≤ env.massiveScaleThreshold) (hname : "hosts" ∉ hosts.keys) :
    RolesPlaced env (Inventory.fresh.place env hosts).toValue := by
  have hnames : hostNames (Inventory.fresh.place env hosts).toValue = hosts.keys := by
    rw [hostNames_toValue, Inventory.fresh_place_hosts]
  have hetcd : members (Inventory.fresh.place env hosts).toValue "etcd" =
      Inventory.etcdHosts hosts := by
    rw [members_etcd, Inventory.fresh_place_group]
    rfl
  have hcp : members (Inventory.fresh.place env hosts).toValue "kube_control_plane" =
      controlPlaneHosts env hosts := by
    rw [members_kubeControlPlane, Inventory.fresh_place_group]
    rfl
  have hcount : etcdCount hosts.keys.length = etcdHostsCount hosts := by
    rw [OrdDict.length_keys]
    rfl
  constructor
  case etcd =>
    rw [hetcd, hnames, hcount]
    rfl
  case controlPlane =>
    rw [hcp, hnames, hcount, OrdDict.length_keys]
    exact controlPlaneHosts_eq hK
  case node =>
    rw [members_kubeNode, Inventory.fresh_place_group, hetcd, hcp, hnames, OrdDict.length_keys]
    exact fresh_nodes hSM
  case calicoRr =>
    rw [members_calicoRr, Inventory.fresh_place_group, hetcd, hnames, OrdDict.length_keys]
    exact calicoRrHosts_eq hname

end

/-- A generated name ends in a digit, so it is not the key of a group. -/
theorem generatedName_ne_hosts {env : Env} (i : Nat) : generatedName env i ≠ "hosts" := by
  intro h
  have hlast : (generatedName env i).toList.getLast? = some 's' := by
    rw [h]
    rfl
  exact generatedName_getLast_ne (by decide) hlast

theorem hosts_not_mem_generated {env : Env} {id : Nat} {args : List (AddArg env)}
    {hosts : OrdDict String Value} (h : hosts.items = AddArg.generatedHosts id args) :
    "hosts" ∉ hosts.keys := by
  rw [OrdDict.keys, h, AddArg.keys_generatedHosts]
  intro hm
  obtain ⟨i, -, hi⟩ := List.mem_map.1 hm
  exact generatedName_ne_hosts i hi

/-- Creating an inventory from addresses with distinct ips: the run writes it, its hosts are those
of the arguments in their order, and the roles are placed by position. So every host has one of the
roles `etcd`, `kube_control_plane` and `kube_node`; from the scale threshold on no etcd host has
another; and from the second threshold on the three groups partition the hosts. -/
theorem creation_roles {env : Env} {args : List (AddArg env)} (file : ConfigFile)
    (hK : 1 ≤ env.kubeControlHosts) (hSM : env.scaleThreshold ≤ env.massiveScaleThreshold)
    (hletter : env.hostPrefix.toList.head?.any env.chars.isalpha = true)
    (hreal : env.useRealHostname = false) (hne : args ≠ []) (ha : ∀ a ∈ args, a.IsAddress)
    (hips : (args.map AddArg.ip).Nodup) :
    ∃ cfg, run env (args.map AddArg.text) file = (.ok (), .yaml cfg) ∧
      hostsOf cfg = AddArg.generatedHosts 1 args ∧ RolesPlaced env cfg ∧
      (∀ h, h ∈ hostNames cfg ↔ h ∈ members cfg "etcd" ∨ h ∈ members cfg "kube_control_plane" ∨
        h ∈ members cfg "kube_node") ∧
      (env.scaleThreshold ≤ args.length → ∀ h ∈ members cfg "etcd",
        h ∉ members cfg "kube_control_plane" ∧ h ∉ members cfg "kube_node") ∧
      (env.massiveScaleThreshold ≤ args.length → ∀ h ∈ members cfg "kube_control_plane",
        h ∉ members cfg "kube_node") := by
  obtain ⟨hosts, hb, hitems⟩ : ∃ hosts,
      builds env (args.map AddArg.text) file = .ok (Inventory.fresh.toValue, hosts) ∧
        hosts.items = AddArg.generatedHosts 1 args :=
    builds_creation hreal hne ha hips fun a hm =>
      AddArg.text_ne_generatedName (ha a hm).name hletter
  have hp := fresh_rolesPlaced (by omega : 0 ≤ env.kubeControlHosts) hSM
    (hosts_not_mem_generated hitems)
  have hlen : (hostNames (Inventory.fresh.place env hosts).toValue).length = args.length := by
    rw [hostNames_toValue, Inventory.fresh_place_hosts, OrdDict.keys, hitems, Assoc.length_keys,
      AddArg.length_generatedHosts]
  refine ⟨_, run_of_builds hb, ?_, hp, fun h => ⟨hp.covered, hp.mem_hostNames⟩, ?_, ?_⟩
  · rw [hostsOf_toValue, Inventory.fresh_place_hosts, hitems]
  · intro hs h he
    exact hp.etcd_apart (OrdDict.nodup_keys _) (by rw [hlen]; exact hs) he
  · intro hm h hc
    exact hp.controlPlane_apart hSM (by rw [hlen]; exact hm) hc

/-- Three hosts. -/
theorem creation_roles_three_hosts :
    ∃ cfg, run {} ["10.0.0.1", "10.0.0.2", "10.0.0.3"] .absent = (.ok (), .yaml cfg) ∧
      RolesPlaced {} cfg := by
  have htexts : ∀ ip ∈ ["10.0.0.1", "10.0.0.2", "10.0.0.3"], AddArg.IsAddressText {} ip := by decide
  have hne : AddArg.ofIps {} _ htexts ≠ [] := AddArg.ofIps_ne_nil (List.cons_ne_nil _ _)
  have hips : ((AddArg.ofIps {} _ htexts).map AddArg.ip).Nodup := by
    rw [AddArg.map_ip_ofIps]
    decide
  obtain ⟨cfg, hrun, -, hp, -⟩ := creation_roles .absent (by decide) (by decide) (by decide) rfl hne
    AddArg.ofIps_isAddress hips
  exact ⟨cfg, hrun, hp⟩

end Kubespray
