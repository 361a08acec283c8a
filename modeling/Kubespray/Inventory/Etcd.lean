import Kubespray.Inventory.Runs

/-!
# The size of the etcd group

The etcd group is never computed anew: a run purges the deleted hosts from it and adds the first
hosts of its list. `place_etcd_size_iff` says when one run leaves as many etcd hosts as the size of
the inventory calls for, and `etcd_size` follows every sequence of such runs. `etcd_size_fails` is
a sequence that leaves two.
-/

namespace Kubespray

open Py

/-- The number of etcd hosts that an inventory of `n` hosts calls for. -/
def etcdQuorum (n : Nat) : Nat := if 3 ≤ n then 3 else if 1 ≤ n then 1 else 0

/-- A quorum is never even, except when there are no hosts. -/
theorem etcdQuorum_odd (n : Nat) (h : 0 < etcdQuorum n) : etcdQuorum n % 2 = 1 := by
  unfold etcdQuorum at h ⊢
  split at h <;> split_ifs at h ⊢ <;> omega

/-- The etcd hosts that the purge keeps are among those that the run chooses, and a list of fewer
than three hosts lacks no host with a protected name. -/
def EtcdChosen (start : Value) (hosts : OrdDict String Value) : Prop :=
  (∀ h ∈ members start "etcd", h ∈ hosts.keys ∨ h ∈ protectedNames →
    h ∈ hosts.keys.take (etcdHostsCount hosts)) ∧
  (hosts.size < 3 → ∀ p ∈ hostsOf start, p.1 ∈ protectedNames → p.1 ∈ hosts.keys)

section
variable {inv : Inventory} {hosts : OrdDict String Value}

/-- The first hosts of the list are as many as the size of the written inventory calls for. -/
theorem length_etcdHosts (env : Env) (hdrop : hosts.size < 3 →
    ∀ h ∈ inv.hosts.keys, h ∈ protectedNames → h ∈ hosts.keys) :
    (Inventory.etcdHosts hosts).length = etcdQuorum (inv.place env hosts).hosts.size := by
  have hle := Inventory.size_le_place env inv hosts
  rw [Inventory.length_etcdHosts_eq_min, etcdHostsCount, etcdQuorum]
  by_cases h3 : 3 ≤ hosts.size
  · rw [if_pos h3, if_pos (h3.trans hle)]
    omega
  · -- below three hosts nothing else is left in the inventory
    have hge : (inv.place env hosts).hosts.size ≤ hosts.size := by
      refine OrdDict.size_le_of_keys_subset fun h hm => ?_
      rcases Inventory.mem_place_hosts.1 hm with hm | ⟨hm, hp⟩
      · exact hm
      · exact hdrop (by omega) h hm hp
    have heq : (inv.place env hosts).hosts.size = hosts.size := by omega
    rw [heq, if_neg h3, if_neg h3]
    split_ifs <;> omega

/-- One run: the etcd group has the size that the inventory calls for iff the etcd hosts that the
purge keeps are among the first hosts of the list. -/
theorem place_etcd_size_iff (env : Env) (hdrop : hosts.size < 3 →
    ∀ h ∈ inv.hosts.keys, h ∈ protectedNames → h ∈ hosts.keys) :
    ((inv.place env hosts).group .etcd).keys.length = etcdQuorum (inv.place env hosts).hosts.size ↔
      ∀ h ∈ (inv.group .etcd).keys, h ∈ hosts.keys ∨ h ∈ protectedNames →
        h ∈ Inventory.etcdHosts hosts := by
  have hnd : (Inventory.etcdHosts hosts).Nodup := hosts.nodup_keys.sublist (List.take_sublist _ _)
  have hnd' := ((inv.place env hosts).group .etcd).nodup_keys
  have hsub : Inventory.etcdHosts hosts ⊆ ((inv.place env hosts).group .etcd).keys :=
    fun h hm => Inventory.mem_place_group.2 (.inl hm)
  rw [← length_etcdHosts env hdrop]
  constructor
  · intro hlen h hm hk
    have hperm := (hnd.subperm hsub).perm_of_length_le hlen.le
    exact hperm.mem_iff.2 (Inventory.mem_place_group.2 (.inr ⟨hm, hk⟩))
  · intro hall
    refine le_antisymm (List.Subperm.length_le (hnd'.subperm fun h hm => ?_))
      (hnd.subperm hsub).length_le
    rcases Inventory.mem_place_group.1 hm with hm | ⟨hm, hk⟩
    · exact hm
    · exact hall h hm hk

/-- A run that meets `EtcdChosen` leaves an etcd group of the right size. -/
theorem place_etcd_size (env : Env) (hB : EtcdChosen inv.toValue hosts) :
    ((inv.place env hosts).group .etcd).keys.length =
      etcdQuorum (inv.place env hosts).hosts.size := by
  obtain ⟨hchosen, hdrop⟩ := hB
  rw [members_etcd] at hchosen
  refine (place_etcd_size_iff env fun h3 h hm hp => ?_).2 hchosen
  obtain ⟨p, hp', rfl⟩ := List.mem_map.1 hm
  exact hdrop h3 p hp' hp

end

/-- After runs that meet `EtcdChosen`, the etcd group has three hosts when the inventory has three
or more, one when it has one or two, and none when it has none; so never a positive even number. -/
theorem etcd_size {env : Env} {cfg : Value}
    (h : ((builder env).guard (RunMeets env EtcdChosen)).Reachable (.yaml cfg)) :
    (members cfg "etcd").length = etcdQuorum (hostsOf cfg).length ∧
      ¬ (0 < (members cfg "etcd").length ∧ (members cfg "etcd").length % 2 = 0) := by
  obtain ⟨inv, rfl, -, hsize⟩ := guarded_invariant
    (P := fun inv => (inv.group .etcd).keys.length = etcdQuorum inv.hosts.size) rfl
    (fun _ _ _ _ hB _ => place_etcd_size env hB) h
  rw [members_etcd, hostsOf_toValue]
  refine ⟨hsize, fun ⟨hpos, heven⟩ => ?_⟩
  rw [hsize] at hpos heven
  exact absurd (etcdQuorum_odd _ hpos) (by omega)

/-- Three hosts are created, which meets `EtcdChosen`. -/
theorem etcd_size_three_hosts :
    ∃ cfg, (members cfg "etcd").length = etcdQuorum (hostsOf cfg).length ∧
    (hostsOf cfg).length = 3 := by
  have hb : builds {} ["10.0.0.1", "10.0.0.2", "10.0.0.3"] .absent =
      .ok (Inventory.fresh.toValue, ⟨[("node1", hostOpts "10.0.0.1" "10.0.0.1"),
        ("node2", hostOpts "10.0.0.2" "10.0.0.2"), ("node3", hostOpts "10.0.0.3" "10.0.0.3")],
        by decide⟩) := rfl
  refine ⟨_, (@etcd_size {} _ (.step (.init rfl) ⟨?_, run_of_builds hb⟩)).1, rfl⟩
  intro start hosts h
  rw [hb] at h
  cases h
  exact ⟨by decide, by decide⟩

/-- Of three hosts one is deleted: the other two stay in the etcd group. -/
theorem etcd_size_fails : ¬ ∀ (env : Env) (cfg : Value), (builder env).Reachable (.yaml cfg) →
    (members cfg "etcd").length = etcdQuorum (hostsOf cfg).length := by
  intro h
  obtain ⟨cfg, hcfg, hlen⟩ : ∃ cfg,
      history {} [["10.0.0.1", "10.0.0.2", "10.0.0.3"], ["-node3"]] = some cfg ∧
        ((members cfg "etcd").length, (hostsOf cfg).length) = (2, 2) :=
    Option.map_eq_some_iff.1 (by decide +kernel)
  have hsize := h _ _ (reachable_of_history hcfg)
  obtain ⟨hmembers, hhosts⟩ := Prod.mk.inj hlen
  rw [hmembers, hhosts] at hsize
  exact absurd hsize (by decide)

end Kubespray
