import Kubespray.Inventory.Runs

/-!
# The ips of the hosts

The loop of `build_hostnames` stores an ip only if no host of its list carries it. What it does not
see are hosts that a deletion took out of the list and that the purge then keeps in the file,
because their names are protected. `hostIps_nodup` says that the ips are distinct after runs that
do not give the ip of such a host to another; `hostIps_nodup_fails` is a run that does.
-/

namespace Kubespray

open Py

/-- No host of the list has the ip of a host with a protected name that the list has lost. -/
def NoIpReused (start : Value) (hosts : OrdDict String Value) : Prop :=
  ∀ p ∈ hostsOf start, p.1 ∈ protectedNames → p.1 ∉ hosts.keys →
    ∀ q ∈ hosts.items, ipOf q.2 ≠ ipOf p.2

section
variable {inv : Inventory} {hosts : OrdDict String Value}

/-- The ips of hosts with the options of the builder, as strings. -/
theorem exists_ips {l : List (String × Value)}
    (hl : ∀ p ∈ l, ∃ accessIp ip, p.2 = hostOpts accessIp ip) :
    ∃ ips : List String, l.map (fun p => p.2.getItem "ip") = ips.map (fun ip => .ok (.str ip)) ∧
      l.map (fun p => ipOf p.2) = ips.map fun ip => some (.str ip) := by
  induction l with
  | nil => exact ⟨[], rfl, rfl⟩
  | cons p l ih =>
    obtain ⟨ips, hitem, hip⟩ := ih fun q hq => hl q (.tail _ hq)
    obtain ⟨accessIp, ip, ho⟩ := hl p (.head _)
    refine ⟨ip :: ips, ?_, ?_⟩
    · rw [List.map_cons, List.map_cons, hitem, ho]
      rfl
    · rw [List.map_cons, List.map_cons, hip, ho, ipOf_hostOpts]

/-- In terms of `IpsDistinct`, different hosts have different ips. -/
theorem ipsDistinct_iff :
    IpsDistinct hosts ↔ ∀ p ∈ hosts.items, ∀ q ∈ hosts.items, ipOf p.2 = ipOf q.2 → p = q :=
  List.nodup_map_iff_inj_on (List.Nodup.of_map _ hosts.nodup)

/-- A run that meets `NoIpReused` keeps the ips distinct: two hosts of the written inventory are
both in the list, or both kept by the purge, or one of each. -/
theorem place_ipsDistinct (env : Env) (hinv : IpsDistinct inv.hosts) (hhosts : IpsDistinct hosts)
    (hB : NoIpReused inv.toValue hosts) : IpsDistinct (inv.place env hosts).hosts := by
  rw [ipsDistinct_iff] at hinv hhosts ⊢
  have hparts : ∀ p ∈ (inv.place env hosts).hosts.items, p ∈ hosts.items ∨
      p ∈ inv.hosts.items ∧ p.1 ∈ protectedNames ∧ p.1 ∉ hosts.keys := by
    intro p hp
    rw [Inventory.place_hosts, OrdDict.mem_items_insertAll hosts.nodup] at hp
    refine hp.imp_right fun ⟨hp, hk⟩ => ?_
    obtain ⟨hp, hkeep⟩ := List.mem_filter.1 hp
    exact ⟨hp, (Inventory.keeps_iff.1 hkeep).resolve_left hk, hk⟩
  intro p hp q hq he
  rcases hparts p hp with hp | ⟨hp, hpp, hpk⟩ <;> rcases hparts q hq with hq | ⟨hq, hqp, hqk⟩
  · exact hhosts p hp q hq he
  · exact absurd he (hB q hq hqp hqk p hp)
  · exact absurd he.symm (hB p hp hpp hpk q hq)
  · exact hinv p hp q hq he

end

/-- After runs that meet `NoIpReused`, every host has an ip and no two hosts share one. -/
theorem hostIps_nodup {env : Env} {cfg : Value}
    (h : ((builder env).guard (RunMeets env NoIpReused)).Reachable (.yaml cfg)) :
    ∃ ips : List String, ips.Nodup ∧
      (hostsOf cfg).map (fun p => p.2.getItem "ip") = ips.map fun ip => .ok (.str ip) := by
  obtain ⟨inv, rfl, hw, hd⟩ := guarded_invariant (P := fun inv => IpsDistinct inv.hosts) .nil
    (fun _ _ _ hinv hB hbuilt => place_ipsDistinct env hinv (hbuilt.ipsDistinct hinv) hB) h
  obtain ⟨ips, hitem, hip⟩ := exists_ips hw.opts
  rw [IpsDistinct, hip] at hd
  exact ⟨ips, List.Nodup.of_map _ hd, hitem⟩

/-- Two hosts are created. -/
theorem hostIps_nodup_two_hosts : ∃ cfg, hostNames cfg = ["node1", "node2"] ∧
    ∃ ips : List String, ips.Nodup ∧
      (hostsOf cfg).map (fun p => p.2.getItem "ip") = ips.map fun ip => .ok (.str ip) := by
  have hb : builds {} ["10.0.0.1", "10.0.0.2"] .absent =
      .ok (Inventory.fresh.toValue, ⟨[("node1", hostOpts "10.0.0.1" "10.0.0.1"),
        ("node2", hostOpts "10.0.0.2" "10.0.0.2")], by decide⟩) := rfl
  refine ⟨_, rfl, @hostIps_nodup {} _ (.step (.init rfl) ⟨?_, run_of_builds hb⟩)⟩
  intro start hosts h
  rw [hb] at h
  cases h
  exact fun p hp => absurd hp List.not_mem_nil

/-- A host named `etcd` is deleted, and its ip is given again in the same run: the purge keeps the
old host, so two hosts have the ip. -/
theorem hostIps_nodup_fails : ¬ ∀ (env : Env) (cfg : Value), (builder env).Reachable (.yaml cfg) →
    ∃ ips : List String, ips.Nodup ∧
      (hostsOf cfg).map (fun p => p.2.getItem "ip") = ips.map fun ip => .ok (.str ip) := by
  intro h
  let created : OrdDict String Value := ⟨[("etcd", hostOpts "10.0.0.1" "10.0.0.1")], by decide⟩
  let changed : OrdDict String Value := ⟨[("node1", hostOpts "10.0.0.1" "10.0.0.1")], by decide⟩
  let inv := Inventory.fresh.place {} created
  have hcreate : builds {} ["etcd,10.0.0.1"] .absent = .ok (Inventory.fresh.toValue, created) := rfl
  have hchange : builds {} ["-etcd", "10.0.0.1"] (.yaml inv.toValue) =
      .ok (inv.toValue, changed) := rfl
  obtain ⟨ips, hnd, hips⟩ :=
    h {} _ (.step (.step (.init rfl) (run_of_builds hcreate)) (run_of_builds hchange))
  have htwo : [.ok (.str "10.0.0.1"), .ok (.str "10.0.0.1")] =
      ips.map fun ip => (.ok (.str ip) : Except Exc Value) := hips
  match ips, hnd, htwo with
  | [a, b], hnd, htwo =>
    have hab : a = b := by
      simp only [List.map_cons, List.map_nil, List.cons.injEq, Except.ok.injEq, Value.str.injEq,
        and_true] at htwo
      rw [← htwo.1, ← htwo.2]
    rw [hab] at hnd
    simp at hnd

end Kubespray
