import Kubespray.Inventory.Creation

/-!
# Growing an inventory

What a creation followed by an `add` writes, compared with one creation from all arguments. The
hosts are the same, and so is the etcd group. The other groups keep the members that the creation
gave them, so they are the same only when the growth does not change the roles of the first hosts.
A host is described by its position `i` among `n` hosts (`controlPlaneAt`, `nodeAt`, `calicoRrAt`);
`grown_iff` is the comparison in these terms, and `growth_agrees` that of the runs.
-/

namespace Kubespray

open Py

/-! ## Roles by position -/

/-- Whether the host at position `i` of `n` is a control plane host. -/
def controlPlaneAt (env : Env) (n i : Nat) : Prop :=
  if env.scaleThreshold ≤ n then etcdCount n ≤ i ∧ i < etcdCount n + env.kubeControlHosts
  else i < env.kubeControlHosts

/-- Whether it is in `kube_node`. -/
def nodeAt (env : Env) (n i : Nat) : Prop :=
  (env.scaleThreshold ≤ n → ¬ i < etcdCount n) ∧
    (env.massiveScaleThreshold ≤ n → ¬ controlPlaneAt env n i)

/-- Whether it is a route reflector. -/
def calicoRrAt (env : Env) (n i : Nat) : Prop := env.scaleThreshold ≤ n ∧ i < etcdCount n

/-- Whether it is in the group of a role. -/
def roleAt (env : Env) (n : Nat) (r : Role) (i : Nat) : Prop :=
  match r with
  | .kubeControlPlane => controlPlaneAt env n i
  | .kubeNode => nodeAt env n i
  | .etcd => i < etcdCount n
  | .calicoRr => calicoRrAt env n i

/-- Growth from `n` to `N` hosts does not change a role that the creation has given: it does not
cross the scale threshold, does not cross the second threshold while there are control plane hosts
in `kube_node`, and does not turn a control plane host into an etcd host. -/
def GrowsInPlace (env : Env) (n N : Nat) : Prop :=
  (N < env.scaleThreshold ∧ (N < env.massiveScaleThreshold ∨ env.massiveScaleThreshold ≤ n)) ∨
  (env.scaleThreshold ≤ n ∧ (n = 1 ∨ n = 3 ∨
    ((n < 3 → N < 3) ∧ (N < env.massiveScaleThreshold ∨ env.massiveScaleThreshold ≤ n))))

theorem GrowsInPlace.refl (env : Env) (n : Nat) : GrowsInPlace env n n := by
  unfold GrowsInPlace
  omega

theorem controlPlaneAt_iff {env : Env} {n i : Nat} :
    controlPlaneAt env n i ↔
      (env.scaleThreshold ≤ n ∧ etcdCount n ≤ i ∧ i < etcdCount n + env.kubeControlHosts) ∨
      (n < env.scaleThreshold ∧ i < env.kubeControlHosts) := by
  unfold controlPlaneAt
  split <;> omega

/-- There are three etcd hosts, or one. -/
theorem etcdCount_cases (n : Nat) : 3 ≤ n ∧ etcdCount n = 3 ∨ n < 3 ∧ etcdCount n = 1 := by
  unfold etcdCount
  split <;> omega

/-- The members of the groups after an `add` from `n` to `N` hosts, by position: those of the
creation of `n` hosts, and those that the passes on `N` hosts add. -/
structure AgreeAt (env : Env) (n N i : Nat) : Prop where
  controlPlane : i < n ∧ controlPlaneAt env n i ∨ controlPlaneAt env N i ↔ controlPlaneAt env N i
  node : i < n ∧ nodeAt env n i ∨
      (env.scaleThreshold ≤ N → ¬ i < etcdCount N) ∧
        (env.massiveScaleThreshold ≤ N →
          ¬ (i < n ∧ controlPlaneAt env n i ∨ controlPlaneAt env N i)) ↔
    nodeAt env N i
  calicoRr : i < n ∧ calicoRrAt env n i ∨ calicoRrAt env N i ↔ calicoRrAt env N i

section
variable {env : Env} {n N i : Nat}

/-- A growth over the scale threshold turns a control plane host into an etcd host. -/
theorem not_agreeAt_of_crosses (hK : 1 ≤ env.kubeControlHosts) (hn : 1 ≤ n)
    (hlt : n < env.scaleThreshold) (hle : env.scaleThreshold ≤ N) : ¬ AgreeAt env n N 0 := by
  intro h
  have hcp := h.controlPlane
  simp only [controlPlaneAt_iff] at hcp
  have heN := etcdCount_cases N
  omega

/-- A growth over the second threshold keeps a control plane host in `kube_node`: below the scale
threshold the first host. -/
theorem not_agreeAt_of_massive_below (hK : 1 ≤ env.kubeControlHosts) (hn : 1 ≤ n)
    (hlt : n < env.massiveScaleThreshold) (hle : env.massiveScaleThreshold ≤ N)
    (hS : N < env.scaleThreshold) : ¬ AgreeAt env n N 0 := by
  intro h
  have hnode := h.node
  simp only [nodeAt, controlPlaneAt_iff] at hnode
  omega

/-- From the scale threshold on it is the first host after the three etcd hosts. -/
theorem not_agreeAt_of_massive_above (hK : 1 ≤ env.kubeControlHosts) (hn : 4 ≤ n)
    (hlt : n < env.massiveScaleThreshold) (hle : env.massiveScaleThreshold ≤ N)
    (hS : env.scaleThreshold ≤ n) : ¬ AgreeAt env n N 3 := by
  intro h
  have hen : etcdCount n = 3 := if_pos (by omega)
  have heN : etcdCount N = 3 := if_pos (by omega)
  have hnode := h.node
  simp only [nodeAt, controlPlaneAt_iff, hen, heN] at hnode
  omega

/-- With two hosts, the second is a control plane host, and with three an etcd host. -/
theorem not_agreeAt_of_two (hK : 1 ≤ env.kubeControlHosts) (hS : env.scaleThreshold ≤ 2)
    (hN : 3 ≤ N) : ¬ AgreeAt env 2 N 1 := by
  intro h
  have heN : etcdCount N = 3 := if_pos hN
  have hcp := h.controlPlane
  simp only [controlPlaneAt_iff, heN, show etcdCount 2 = 1 from rfl] at hcp
  omega

/-- A growth in place changes no role. -/
theorem GrowsInPlace.agreeAt (hg : GrowsInPlace env n N) (hN : n ≤ N) : AgreeAt env n N i := by
  have hen := etcdCount_cases n
  have heN := etcdCount_cases N
  unfold GrowsInPlace at hg
  constructor
  · simp only [controlPlaneAt_iff]
    omega
  · simp only [nodeAt, controlPlaneAt_iff]
    omega
  · simp only [calicoRrAt]
    omega

/-- They are those of one creation of `N` hosts iff the growth is in place. -/
theorem agreeAt_iff (hK : 1 ≤ env.kubeControlHosts) (hn : 1 ≤ n) (hN : n ≤ N) :
    (∀ i < N, AgreeAt env n N i) ↔ GrowsInPlace env n N := by
  refine ⟨fun h => ?_, fun hg i _ => hg.agreeAt hN⟩
  by_contra hnot
  by_cases hS : N < env.scaleThreshold
  · refine not_agreeAt_of_massive_below hK hn ?_ ?_ hS (h 0 (by omega))
    · by_contra hM
      exact hnot (.inl ⟨hS, by omega⟩)
    · by_contra hM
      exact hnot (.inl ⟨hS, by omega⟩)
  · by_cases hn' : env.scaleThreshold ≤ n
    · unfold GrowsInPlace at hnot
      by_cases h2 : n = 2
      · subst h2
        exact not_agreeAt_of_two hK hn' (by omega) (h 1 (by omega))
      · exact not_agreeAt_of_massive_above hK (by omega) (by omega) (by omega) hn'
          (h 3 (by omega))
    · exact not_agreeAt_of_crosses hK hn (by omega) (by omega) (h 0 (by omega))

end

/-! ## The hosts that the passes add, by position -/

/-- In a list without repetitions the elements of a segment are those at its positions. -/
theorem getElem_mem_segment {ks : List String} (hnd : ks.Nodup) {i : Nat} (hi : i < ks.length)
    (lo hi' : Nat) : ks[i] ∈ (ks.take hi').drop lo ↔ lo ≤ i ∧ i < hi' := by
  rw [List.mem_iff_getElem]
  constructor
  · rintro ⟨j, hj, he⟩
    rw [List.length_drop, List.length_take] at hj
    rw [List.getElem_drop, List.getElem_take, hnd.getElem_inj_iff] at he
    omega
  · rintro ⟨hlo, hlt⟩
    refine ⟨i - lo, ?_, ?_⟩
    · rw [List.length_drop, List.length_take]
      omega
    · simp only [List.getElem_drop, List.getElem_take, Nat.add_sub_cancel' hlo]

section
variable {env : Env} {hosts : OrdDict String Value} {i : Nat}

theorem getElem_mem_etcdHosts (hi : i < hosts.keys.length) :
    hosts.keys[i] ∈ Inventory.etcdHosts hosts ↔ i < etcdCount hosts.size := by
  have h := getElem_mem_segment hosts.nodup_keys hi 0 (etcdHostsCount hosts)
  rw [List.drop_zero] at h
  exact h.trans (and_iff_right (Nat.zero_le i))

theorem getElem_mem_controlPlaneHosts (hK : 0 ≤ env.kubeControlHosts) (hi : i < hosts.keys.length) :
    hosts.keys[i] ∈ controlPlaneHosts env hosts ↔ controlPlaneAt env hosts.size i := by
  have hcount : etcdHostsCount hosts = etcdCount hosts.size := rfl
  unfold controlPlaneHosts controlPlaneAt
  split
  · rw [slice_of_nonneg _ _ (by omega), getElem_mem_segment hosts.nodup_keys hi, hcount]
    omega
  · rw [slice_of_nonneg _ _ hK, getElem_mem_segment hosts.nodup_keys hi]
    omega

theorem getElem_mem_added_kubeNode (hK : 0 ≤ env.kubeControlHosts) (hi : i < hosts.keys.length) :
    hosts.keys[i] ∈ Inventory.fresh.added env hosts .kubeNode ↔ nodeAt env hosts.size i := by
  have hm : hosts.keys[i] ∈ hosts.keys := List.getElem_mem hi
  rw [Inventory.mem_added_kubeNode, Inventory.fresh_place_hosts, Inventory.fresh_place_group,
    Inventory.fresh_place_group, and_iff_right hm]
  simp only [Inventory.added, getElem_mem_etcdHosts hi, getElem_mem_controlPlaneHosts hK hi, nodeAt]

theorem getElem_mem_calicoRrHosts (hi : i < hosts.keys.length) (hname : "hosts" ∉ hosts.keys) :
    hosts.keys[i] ∈ Inventory.calicoRrHosts env hosts ↔ calicoRrAt env hosts.size i := by
  have hne : hosts.keys[i] ≠ "hosts" := fun he => hname (he ▸ List.getElem_mem hi)
  unfold Inventory.calicoRrHosts calicoRrAt
  split
  · next hs => simp [hs, hne, getElem_mem_etcdHosts hi]
  · next hs => simp [hs]

/-- The hosts that a creation adds to a group. -/
theorem getElem_mem_added (hK : 0 ≤ env.kubeControlHosts) (hi : i < hosts.keys.length)
    (hname : "hosts" ∉ hosts.keys) {r : Role} :
    hosts.keys[i] ∈ Inventory.fresh.added env hosts r ↔ roleAt env hosts.size r i := by
  cases r with
  | kubeControlPlane => exact getElem_mem_controlPlaneHosts hK hi
  | kubeNode => exact getElem_mem_added_kubeNode hK hi
  | etcd => exact getElem_mem_etcdHosts hi
  | calicoRr => exact getElem_mem_calicoRrHosts hi hname

end

/-! ## Placing a longer list over a shorter one -/

section
variable {env : Env} {first all : OrdDict String Value} {ps : List (String × Value)} {i : Nat}

/-- The hosts are those of the longer list. -/
theorem grown_hosts (h : all.items = first.items ++ ps) :
    ((Inventory.fresh.place env first).place env all).hosts = all := by
  have hsub : ∀ k ∈ first.keys, k ∈ all.keys := by
    intro k hk
    rw [OrdDict.keys_of_items_eq_append h]
    exact List.mem_append_left _ hk
  rw [Inventory.place_hosts, Inventory.fresh_place_hosts,
    OrdDict.filter_eq_self fun k hk => Inventory.keeps_iff.2 (.inl (hsub k hk))]
  exact OrdDict.insertAll_of_items_eq_append h

/-- A group has the hosts it was given and those that the run adds. -/
theorem mem_grown_group (h : all.items = first.items ++ ps) {r : Role} {k : String} :
    k ∈ (((Inventory.fresh.place env first).place env all).group r).keys ↔
      k ∈ Inventory.fresh.added env first r ∨
        k ∈ (Inventory.fresh.place env first).added env all r := by
  rw [Inventory.mem_place_group, Inventory.fresh_place_group, or_comm]
  refine or_congr_left (and_iff_left_of_imp fun hk => .inl ?_)
  rw [OrdDict.keys_of_items_eq_append h]
  exact List.mem_append_left _ (Inventory.mem_of_mem_added hk)

/-- The hosts that the passes on the shorter list add, by their position in the longer one. -/
theorem getElem_mem_added_first (hK : 0 ≤ env.kubeControlHosts) (h : all.items = first.items ++ ps)
    (hname : "hosts" ∉ all.keys) (hi : i < all.keys.length) (r : Role) :
    all.keys[i] ∈ Inventory.fresh.added env first r ↔
      i < first.size ∧ roleAt env first.size r i := by
  have hkeys := OrdDict.keys_of_items_eq_append h
  by_cases hlt : i < first.size
  · have hlt' : i < first.keys.length := by rwa [OrdDict.length_keys]
    have hget : all.keys[i] = first.keys[i] := by
      simp only [hkeys]
      exact List.getElem_append_left hlt'
    have hname' : "hosts" ∉ first.keys := fun hm => hname (by simp [hkeys, hm])
    rw [hget, getElem_mem_added hK hlt' hname', and_iff_right hlt]
  · refine iff_of_false (fun hm => ?_) fun hm => hlt hm.1
    obtain ⟨j, hj, he⟩ := List.mem_iff_getElem.1 (Inventory.mem_of_mem_added hm)
    have hj' : j < all.keys.length := by
      rw [hkeys, List.length_append]
      omega
    have hget : all.keys[j] = first.keys[j] := by
      simp only [hkeys]
      exact List.getElem_append_left hj
    rw [← hget, all.nodup_keys.getElem_inj_iff] at he
    rw [OrdDict.length_keys] at hj
    omega

/-- A role of the host at position `i` of the longer list, after both runs. -/
theorem getElem_mem_grown (hK : 0 ≤ env.kubeControlHosts) (h : all.items = first.items ++ ps)
    (hname : "hosts" ∉ all.keys) (hi : i < all.keys.length) {r : Role} (hr : r ≠ .kubeNode) :
    all.keys[i] ∈ (((Inventory.fresh.place env first).place env all).group r).keys ↔
      (i < first.size ∧ roleAt env first.size r i) ∨ roleAt env all.size r i := by
  have hadd :
      (Inventory.fresh.place env first).added env all r = Inventory.fresh.added env all r := by
    cases r with
    | kubeNode => exact absurd rfl hr
    | _ => rfl
  rw [mem_grown_group h, hadd, getElem_mem_added_first hK h hname hi, getElem_mem_added hK hi hname]

/-- The group `kube_node` depends on the groups that both runs have filled. -/
theorem getElem_mem_grown_kubeNode (hK : 0 ≤ env.kubeControlHosts)
    (h : all.items = first.items ++ ps) (hname : "hosts" ∉ all.keys) (hi : i < all.keys.length) :
    all.keys[i] ∈ (((Inventory.fresh.place env first).place env all).group .kubeNode).keys ↔
      i < first.size ∧ nodeAt env first.size i ∨
        (env.scaleThreshold ≤ all.size → ¬ i < etcdCount all.size) ∧
          (env.massiveScaleThreshold ≤ all.size →
            ¬ (i < first.size ∧ controlPlaneAt env first.size i ∨
              controlPlaneAt env all.size i)) := by
  have hm : all.keys[i] ∈ all.keys := List.getElem_mem hi
  have hle : first.size ≤ all.size := OrdDict.size_le_of_items_eq_append h
  have hn := etcdCount_cases first.size
  have hN := etcdCount_cases all.size
  -- the etcd hosts of the shorter list are etcd hosts of the longer one
  have hetcd : (i < first.size ∧ i < etcdCount first.size) ∨ i < etcdCount all.size ↔
      i < etcdCount all.size := by omega
  rw [mem_grown_group h, getElem_mem_added_first hK h hname hi, Inventory.mem_added_kubeNode,
    grown_hosts h, and_iff_right hm,
    getElem_mem_grown hK h hname hi (by decide : Role.etcd ≠ .kubeNode),
    getElem_mem_grown hK h hname hi (by decide : Role.kubeControlPlane ≠ .kubeNode)]
  simp only [roleAt, hetcd]

/-- The members of a group after both runs are those of one run. -/
def SameMembers (env : Env) (first all : OrdDict String Value) (r : Role) : Prop :=
  ∀ k, k ∈ (((Inventory.fresh.place env first).place env all).group r).keys ↔
    k ∈ ((Inventory.fresh.place env all).group r).keys

/-- It is enough to compare the hosts by their positions. -/
theorem sameMembers_iff (h : all.items = first.items ++ ps) {r : Role} :
    SameMembers env first all r ↔ ∀ i, ∀ hi : i < all.keys.length,
      (all.keys[i] ∈ (((Inventory.fresh.place env first).place env all).group r).keys ↔
        all.keys[i] ∈ Inventory.fresh.added env all r) := by
  unfold SameMembers
  rw [Inventory.fresh_place_group]
  refine ⟨fun hall i hi => hall all.keys[i], fun hall k => ?_⟩
  by_cases hk : k ∈ all.keys
  · obtain ⟨i, hi, rfl⟩ := List.mem_iff_getElem.1 hk
    exact hall i hi
  · have hkf : k ∉ first.keys := fun hm => hk (by
      rw [OrdDict.keys_of_items_eq_append h]
      exact List.mem_append_left _ hm)
    refine iff_of_false (fun hm => ?_) fun hm => hk (Inventory.mem_of_mem_added hm)
    rcases (mem_grown_group h).1 hm with hm | hm
    · exact hkf (Inventory.mem_of_mem_added hm)
    · exact hk (Inventory.mem_of_mem_added hm)

/-- The group etcd is always the same. -/
theorem sameMembers_etcd (hK : 0 ≤ env.kubeControlHosts) (h : all.items = first.items ++ ps)
    (hname : "hosts" ∉ all.keys) : SameMembers env first all .etcd := by
  refine (sameMembers_iff h).2 fun i hi => ?_
  have hn := etcdCount_cases first.size
  have hN := etcdCount_cases all.size
  rw [getElem_mem_grown hK h hname hi (by decide), getElem_mem_added hK hi hname]
  show (_ ∧ i < etcdCount _) ∨ i < etcdCount _ ↔ i < etcdCount _
  have hle : first.size ≤ all.size := OrdDict.size_le_of_items_eq_append h
  omega

/-- The other groups are the same iff the growth is in place. -/
theorem grown_iff (hK : 1 ≤ env.kubeControlHosts) (h : all.items = first.items ++ ps)
    (hname : "hosts" ∉ all.keys) (hpos : 0 < first.size) :
    (SameMembers env first all .kubeControlPlane ∧ SameMembers env first all .kubeNode ∧
      SameMembers env first all .calicoRr) ↔ GrowsInPlace env first.size all.size := by
  have hK' : 0 ≤ env.kubeControlHosts := by omega
  have hle : first.size ≤ all.size := OrdDict.size_le_of_items_eq_append h
  have hagree : ∀ i, ∀ hi : i < all.keys.length, AgreeAt env first.size all.size i ↔
      ∀ r ∈ [Role.kubeControlPlane, .kubeNode, .calicoRr],
        (all.keys[i] ∈ (((Inventory.fresh.place env first).place env all).group r).keys ↔
          all.keys[i] ∈ Inventory.fresh.added env all r) := by
    intro i hi
    simp only [List.forall_mem_cons, List.not_mem_nil, false_imp_iff, implies_true, and_true,
      getElem_mem_grown hK' h hname hi (by decide : Role.kubeControlPlane ≠ .kubeNode),
      getElem_mem_grown hK' h hname hi (by decide : Role.calicoRr ≠ .kubeNode),
      getElem_mem_grown_kubeNode hK' h hname hi, getElem_mem_added hK' hi hname, roleAt]
    exact ⟨fun ha => ⟨ha.controlPlane, ha.node, ha.calicoRr⟩, fun ⟨hc, hn, hr⟩ => ⟨hc, hn, hr⟩⟩
  rw [← agreeAt_iff hK hpos hle, sameMembers_iff h, sameMembers_iff h, sameMembers_iff h]
  constructor
  · rintro ⟨hc, hn, hr⟩ i hi
    rw [← OrdDict.length_keys] at hi
    refine (hagree i hi).2 ?_
    simp only [List.forall_mem_cons, List.not_mem_nil, false_imp_iff, implies_true, and_true]
    exact ⟨hc i hi, hn i hi, hr i hi⟩
  · intro hall
    have hall' : ∀ i, ∀ hi : i < all.keys.length, _ := fun i hi =>
      (hagree i hi).1 (hall i (by rwa [← OrdDict.length_keys]))
    exact ⟨fun i hi => hall' i hi _ (by decide), fun i hi => hall' i hi _ (by decide),
      fun i hi => hall' i hi _ (by decide)⟩

/-- Without new hosts nothing changes. -/
theorem sameMembers_self (hK : 1 ≤ env.kubeControlHosts) (hname : "hosts" ∉ all.keys)
    (hpos : 0 < all.size) (r : Role) : SameMembers env all all r := by
  have h : all.items = all.items ++ [] := (List.append_nil _).symm
  have hall := (grown_iff hK h hname hpos).2 (GrowsInPlace.refl env all.size)
  cases r with
  | kubeControlPlane => exact hall.1
  | kubeNode => exact hall.2.1
  | etcd => exact sameMembers_etcd (by omega) h hname
  | calicoRr => exact hall.2.2

end

/-! ## The runs -/

section
variable {env : Env}

/-- The highest id of hosts numbered from one. -/
theorem highestHostId_numbered (hdot : '.' ∉ env.hostPrefix.toList)
    (hdigit : ∀ c, env.hostPrefix.toList.getLast? = some c → env.chars.decimal c = none) (n : Nat) :
    highestHostId env ((List.range' 1 n).map (generatedName env)) = .ok n := by
  have hid := getHostId_generatedName_eq hdot hdigit
  obtain ⟨highest, hh⟩ : ∃ highest,
      highestHostId env ((List.range' 1 n).map (generatedName env)) = .ok highest := by
    refine highestHostId_isOk.2 fun name hn _ => ?_
    obtain ⟨i, -, rfl⟩ := List.mem_map.1 hn
    exact ⟨i, hid i⟩
  obtain ⟨-, hbound, hmem⟩ := foldlM_scanId_eq_ok hh
  have hle : ∀ i, 1 ≤ i → i < 1 + n → i ≤ highest := by
    intro i h1 hi
    obtain ⟨j, hj, hjh⟩ := hbound (generatedName env i)
      (List.mem_map_of_mem (List.mem_range'_1.2 ⟨h1, hi⟩)) (startsWith_append _ _)
    rw [hid] at hj
    cases hj
    exact hjh
  have hge : highest ≤ n := by
    rcases hmem with rfl | ⟨name, hn, -, hj⟩
    · exact Nat.zero_le n
    · obtain ⟨i, hi, rfl⟩ := List.mem_map.1 hn
      rw [hid] at hj
      cases hj
      have := (List.mem_range'_1.1 hi).2
      omega
  have : highest = n := by
    by_cases hn : n = 0
    · omega
    · have := hle n (by omega) (by omega)
      omega
  rw [hh, this]

/-- An `add` of addresses to a created inventory: the new hosts follow in the order of the
addresses, with the next numbers. -/
theorem builds_add_generated {A B : List (AddArg env)} {first : OrdDict String Value}
    (hfirst : first.items = AddArg.generatedHosts 1 A)
    (hletter : env.hostPrefix.toList.head?.any env.chars.isalpha = true)
    (hdot : '.' ∉ env.hostPrefix.toList)
    (hdigit : ∀ c, env.hostPrefix.toList.getLast? = some c → env.chars.decimal c = none)
    (hreal : env.useRealHostname = false) (hne : B ≠ []) (ha : ∀ a ∈ B, a.IsAddress)
    (hips : ((A ++ B).map AddArg.ip).Nodup) :
    ∃ all, builds env ("add" :: B.map AddArg.text)
        (.yaml (Inventory.fresh.place env first).toValue) =
          .ok ((Inventory.fresh.place env first).toValue, all) ∧
      all.items = first.items ++ AddArg.generatedHosts (1 + A.length) B := by
  have hkeys : first.keys = (List.range' 1 A.length).map (generatedName env) := by
    rw [OrdDict.keys, hfirst, AddArg.keys_generatedHosts]
  have hhosts : ((Inventory.fresh.place env first).base true).hosts = first :=
    Inventory.fresh_place_hosts env
  rw [List.map_append, List.nodup_append] at hips
  have hopts : ∀ p ∈ first.items, ∃ a ∈ A, p.2 = a.opts := by
    intro p hp
    rw [hfirst] at hp
    exact AddArg.opts_of_mem_generatedHosts hp
  have hid : highestHostId env ((Inventory.fresh.place env first).base true).hosts.keys =
      .ok A.length := by
    rw [hhosts, hkeys]
    exact highestHostId_numbered hdot hdigit _
  have hHasIps : HasIps ((Inventory.fresh.place env first).base true).hosts := by
    rw [hhosts]
    refine hasIps_of_opts fun p hp => ?_
    obtain ⟨a, -, he⟩ := hopts p hp
    exact ⟨a.accessIp, a.ip, he⟩
  have hstart : startConfig true (.yaml (Inventory.fresh.place env first).toValue) =
      .ok ((Inventory.fresh.place env first).base true).toValue := ensureRequiredGroups_toValue _
  have hbuilt := built_texts true (Inventory.fresh.place env first) hreal hne ha hstart hid hHasIps
  have hadds := AddArg.adds_generated B first (A.length + 1) ha hips.2.1
    (fun b hb => by
      refine carriesIp_eq_false.2 fun p hp => ?_
      obtain ⟨a, hm, ho⟩ := hopts p hp
      rw [ho, AddArg.opts, hasIp_hostOpts, beq_eq_false_iff_ne]
      exact hips.2.2 _ (List.mem_map_of_mem hm) _ (List.mem_map_of_mem hb))
    (fun b hb => ⟨fun hm => by
        rw [hkeys] at hm
        obtain ⟨i, -, hi⟩ := List.mem_map.1 hm
        exact AddArg.text_ne_generatedName (ha b hb).name hletter i hi.symm,
          AddArg.text_ne_generatedName (ha b hb).name hletter⟩)
    (fun i hi hm => by
      rw [hkeys] at hm
      obtain ⟨j, hj, he⟩ := List.mem_map.1 hm
      have := generatedName_injective he
      have := (List.mem_range'_1.1 hj).2
      omega)
  rw [hhosts] at hbuilt
  refine ⟨_, hbuilt, ?_⟩
  rw [hadds.1, Nat.add_comm]

/-- The host lists of the three runs. -/
theorem builds_growth {A B : List (AddArg env)} (file file' : ConfigFile)
    (hletter : env.hostPrefix.toList.head?.any env.chars.isalpha = true)
    (hdot : '.' ∉ env.hostPrefix.toList)
    (hdigit : ∀ c, env.hostPrefix.toList.getLast? = some c → env.chars.decimal c = none)
    (hreal : env.useRealHostname = false) (hne : A ≠ []) (ha : ∀ a ∈ A ++ B, a.IsAddress)
    (hips : ((A ++ B).map AddArg.ip).Nodup) :
    ∃ first all, builds env (A.map AddArg.text) file = .ok (Inventory.fresh.toValue, first) ∧
      builds env ((A ++ B).map AddArg.text) file' = .ok (Inventory.fresh.toValue, all) ∧
      (B ≠ [] → builds env ("add" :: B.map AddArg.text)
        (.yaml (Inventory.fresh.place env first).toValue) =
          .ok ((Inventory.fresh.place env first).toValue, all)) ∧
      all.items = first.items ++ AddArg.generatedHosts (1 + A.length) B ∧ "hosts" ∉ all.keys ∧
      first.size = A.length ∧ all.size = (A ++ B).length := by
  have htext : ∀ a ∈ A ++ B, ∀ i, a.text ≠ generatedName env i :=
    fun a hm => AddArg.text_ne_generatedName (ha a hm).name hletter
  have hipsA : (A.map AddArg.ip).Nodup := by
    rw [List.map_append, List.nodup_append] at hips
    exact hips.1
  have hneAB : A ++ B ≠ [] := by simp [hne]
  obtain ⟨first, hbA, hfirst⟩ : ∃ first,
      builds env (A.map AddArg.text) file = .ok (Inventory.fresh.toValue, first) ∧
        first.items = AddArg.generatedHosts 1 A :=
    builds_creation hreal hne (fun a hm => ha a (List.mem_append_left _ hm)) hipsA
      (fun a hm => htext a (List.mem_append_left _ hm))
  obtain ⟨all, hbAB, hall⟩ : ∃ all,
      builds env ((A ++ B).map AddArg.text) file' = .ok (Inventory.fresh.toValue, all) ∧
        all.items = AddArg.generatedHosts 1 (A ++ B) :=
    builds_creation hreal hneAB ha hips htext
  have hitems : all.items = first.items ++ AddArg.generatedHosts (1 + A.length) B := by
    rw [hall, hfirst, AddArg.generatedHosts_append]
  refine ⟨first, all, hbA, hbAB, fun hB => ?_, hitems, ?_, ?_, ?_⟩
  · obtain ⟨all', hb, hall'⟩ := builds_add_generated hfirst hletter hdot hdigit hreal hB
      (fun a hm => ha a (List.mem_append_right _ hm)) hips
    obtain rfl : all' = all := OrdDict.ext (hall'.trans hitems.symm)
    exact hb
  · exact hosts_not_mem_generated hall
  · rw [OrdDict.size, hfirst, AddArg.length_generatedHosts]
  · rw [OrdDict.size, hall, AddArg.length_generatedHosts]

end

/-- Creating an inventory from `A` and adding `B` to it, against creating it from `A ++ B`: the
hosts and the group etcd are the same, and the other groups are the same iff the growth is in
place. An `add` without arguments shows the help text and leaves the file as it is. -/
theorem growth_agrees {env : Env} {A B : List (AddArg env)} (file file' : ConfigFile)
    (hK : 1 ≤ env.kubeControlHosts)
    (hletter : env.hostPrefix.toList.head?.any env.chars.isalpha = true)
    (hdot : '.' ∉ env.hostPrefix.toList)
    (hdigit : ∀ c, env.hostPrefix.toList.getLast? = some c → env.chars.decimal c = none)
    (hreal : env.useRealHostname = false) (hne : A ≠ []) (ha : ∀ a ∈ A ++ B, a.IsAddress)
    (hips : ((A ++ B).map AddArg.ip).Nodup) :
    ∃ cfgA cfgAB cfg, run env (A.map AddArg.text) file = (.ok (), .yaml cfgA) ∧
      (run env ("add" :: B.map AddArg.text) (.yaml cfgA)).2 = .yaml cfgAB ∧
      (B ≠ [] → (run env ("add" :: B.map AddArg.text) (.yaml cfgA)).1 = .ok ()) ∧
      run env ((A ++ B).map AddArg.text) file' = (.ok (), .yaml cfg) ∧
      hostsOf cfgAB = hostsOf cfg ∧
      (∀ h, h ∈ members cfgAB "etcd" ↔ h ∈ members cfg "etcd") ∧
      ((∀ group ∈ ["kube_control_plane", "kube_node", "calico_rr"],
        ∀ h, h ∈ members cfgAB group ↔ h ∈ members cfg group) ↔
          GrowsInPlace env A.length (A ++ B).length) := by
  obtain ⟨first, all, hbA, hbAB, hadd, hitems, hname, hsize, hsize'⟩ :=
    builds_growth file file' hletter hdot hdigit hreal hne ha hips
  have hpos : 0 < first.size := by
    rw [hsize]
    exact List.length_pos_of_ne_nil hne
  -- the two runs write the placement of the longer list over that of the shorter one
  have hgrown : ∃ inv : Inventory,
      (run env ("add" :: B.map AddArg.text) (.yaml (Inventory.fresh.place env first).toValue)).2 =
        .yaml inv.toValue ∧
      (B ≠ [] → (run env ("add" :: B.map AddArg.text)
        (.yaml (Inventory.fresh.place env first).toValue)).1 = .ok ()) ∧
      inv.hosts = ((Inventory.fresh.place env first).place env all).hosts ∧
      ∀ r k, k ∈ (inv.group r).keys ↔
        k ∈ (((Inventory.fresh.place env first).place env all).group r).keys := by
    by_cases hB : B = []
    · subst hB
      rw [AddArg.generatedHosts, List.append_nil] at hitems
      obtain rfl : all = first := OrdDict.ext hitems
      have hhosts : ((Inventory.fresh.place env all).place env all).hosts = all :=
        grown_hosts (List.append_nil all.items).symm
      exact ⟨.place env .fresh all, rfl, fun hB => absurd rfl hB,
        (Inventory.fresh_place_hosts env).trans hhosts.symm,
        fun r k => (sameMembers_self hK hname hpos r k).symm⟩
    · have hrun := run_of_builds (hadd hB)
      exact ⟨_, by rw [hrun], fun _ => by rw [hrun], rfl, fun _ _ => Iff.rfl⟩
  obtain ⟨inv, hfileAB, hokAB, hhosts, hgroup⟩ := hgrown
  refine ⟨_, _, _, run_of_builds hbA, hfileAB, hokAB, run_of_builds hbAB, ?_, ?_, ?_⟩
  · rw [hostsOf_toValue, hostsOf_toValue, hhosts, grown_hosts hitems, Inventory.fresh_place_hosts]
  · intro h
    rw [members_etcd, members_etcd, hgroup]
    exact sameMembers_etcd (by omega) hitems hname h
  · rw [← hsize, ← hsize', ← grown_iff hK hitems hname hpos]
    simp only [List.forall_mem_cons, List.not_mem_nil, false_imp_iff, implies_true, and_true,
      members_kubeControlPlane, members_kubeNode, members_calicoRr, hgroup, SameMembers]

/-- The default of `HOST_PREFIX` does not end in a digit. -/
theorem defaultPrefix_getLast {env : Env} (hp : env.hostPrefix = "node") (hc : env.chars = .ascii) :
    ∀ c, env.hostPrefix.toList.getLast? = some c → env.chars.decimal c = none := by
  intro c h
  rw [hp] at h
  rw [hc]
  obtain rfl : 'e' = c := Option.some.inj h
  rfl

/-- From one host to two. -/
theorem growth_agrees_two_hosts :
    ∃ cfgA cfgAB cfg, run {} ["10.0.0.1"] .absent = (.ok (), .yaml cfgA) ∧
      run {} ["add", "10.0.0.2"] (.yaml cfgA) = (.ok (), .yaml cfgAB) ∧
      run {} ["10.0.0.1", "10.0.0.2"] .absent = (.ok (), .yaml cfg) ∧
      hostsOf cfgAB = hostsOf cfg ∧
      ∀ group ∈ ["kube_control_plane", "kube_node", "calico_rr"],
        ∀ h, h ∈ members cfgAB group ↔ h ∈ members cfg group := by
  have hA : ∀ ip ∈ ["10.0.0.1"], AddArg.IsAddressText {} ip := by decide
  have hB : ∀ ip ∈ ["10.0.0.2"], AddArg.IsAddressText {} ip := by decide
  let A : List (AddArg {}) := AddArg.ofIps {} _ hA
  let B : List (AddArg {}) := AddArg.ofIps {} _ hB
  have ha : ∀ a ∈ A ++ B, a.IsAddress :=
    List.forall_mem_append.2 ⟨AddArg.ofIps_isAddress, AddArg.ofIps_isAddress⟩
  have hips : ((A ++ B).map AddArg.ip).Nodup := by
    rw [List.map_append, AddArg.map_ip_ofIps, AddArg.map_ip_ofIps]
    decide
  obtain ⟨cfgA, cfgAB, cfg, hA, hAB, hok, hcfg, hhosts, -, hgroups⟩ :=
    growth_agrees (A := A) (B := B) .absent .absent (by decide) (by decide) (by decide)
      (defaultPrefix_getLast rfl rfl) rfl (AddArg.ofIps_ne_nil (List.cons_ne_nil _ _)) ha hips
  have hgrows : GrowsInPlace {} 1 2 := .inl ⟨by decide, .inl (by decide)⟩
  exact ⟨cfgA, cfgAB, cfg, hA, Prod.ext (hok (List.cons_ne_nil _ _)) hAB, hcfg, hhosts,
    hgroups.2 hgrows⟩

/-- From three hosts to four at a scale threshold of four: `node1` stays a control plane host, which
it is not when the inventory is created from the four addresses. -/
theorem growth_agrees_fails : ¬ ∀ (env : Env) (A B : List (AddArg env)) (cfgA cfgAB cfg : Value),
    1 ≤ env.kubeControlHosts → env.hostPrefix.toList.head?.any env.chars.isalpha = true →
    '.' ∉ env.hostPrefix.toList →
    (∀ c, env.hostPrefix.toList.getLast? = some c → env.chars.decimal c = none) →
    env.useRealHostname = false → A ≠ [] → (∀ a ∈ A ++ B, a.IsAddress) →
    ((A ++ B).map AddArg.ip).Nodup →
    run env (A.map AddArg.text) .absent = (.ok (), .yaml cfgA) →
    run env ("add" :: B.map AddArg.text) (.yaml cfgA) = (.ok (), .yaml cfgAB) →
    run env ((A ++ B).map AddArg.text) .absent = (.ok (), .yaml cfg) →
    hostsOf cfgAB = hostsOf cfg ∧
      ∀ group ∈ ["etcd", "kube_control_plane", "kube_node", "calico_rr"],
        ∀ h, h ∈ members cfgAB group ↔ h ∈ members cfg group := by
  intro h
  let env : Env := { scaleThreshold := 4 }
  have hA : ∀ ip ∈ ["10.0.0.1", "10.0.0.2", "10.0.0.3"], AddArg.IsAddressText env ip := by decide
  have hB : ∀ ip ∈ ["10.0.0.4"], AddArg.IsAddressText env ip := by decide
  let A : List (AddArg env) := AddArg.ofIps env _ hA
  let B : List (AddArg env) := AddArg.ofIps env _ hB
  have ha : ∀ a ∈ A ++ B, a.IsAddress :=
    List.forall_mem_append.2 ⟨AddArg.ofIps_isAddress, AddArg.ofIps_isAddress⟩
  have hips : ((A ++ B).map AddArg.ip).Nodup := by
    rw [List.map_append, AddArg.map_ip_ofIps, AddArg.map_ip_ofIps]
    decide
  have hdigit : ∀ c, env.hostPrefix.toList.getLast? = some c → env.chars.decimal c = none :=
    defaultPrefix_getLast rfl rfl
  obtain ⟨first, all, hbA, hbAB, hadd, hitems, hname, hsize, hsize'⟩ :=
    builds_growth (A := A) (B := B) .absent .absent (by decide) (by decide) hdigit rfl
      (List.cons_ne_nil _ _) ha hips
  have hgroups := (h env A B _ _ _ (by decide) (by decide) (by decide) hdigit rfl
    (List.cons_ne_nil _ _) ha hips (run_of_builds hbA)
    (run_of_builds (hadd (List.cons_ne_nil _ _))) (run_of_builds hbAB)).2
  simp only [List.forall_mem_cons, List.not_mem_nil, false_imp_iff, implies_true, and_true,
    members_kubeControlPlane, members_kubeNode, members_calicoRr] at hgroups
  rw [AddArg.length_ofIps] at hsize
  rw [List.length_append, AddArg.length_ofIps, AddArg.length_ofIps] at hsize'
  have hgrows := (grown_iff (by decide) hitems hname (by rw [hsize]; decide)).1 hgroups.2
  rw [hsize, hsize'] at hgrows
  rcases hgrows with ⟨hlt, -⟩ | ⟨hle, -⟩
  · exact absurd hlt (by decide)
  · exact absurd hle (by decide)

end Kubespray
