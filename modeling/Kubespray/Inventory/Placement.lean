import Kubespray.Inventory.Program
import Mathlib.Logic.Function.Basic

/-!
# What the group passes compute

`Inventory` is an inventory as the builder writes it: a host map and four groups of hosts, each a
dictionary without repeated keys. `Inventory.place` is the purpose of a run in these terms: forget
the hosts that are gone, take over the host list, and give each group its new members.
`setGroups_toValue` says that the passes on the YAML data compute exactly this, so that everything
about the groups is proved on `Inventory`.
-/

namespace Kubespray

open Py

/-- The groups whose `hosts` the builder fills. -/
inductive Role where
  | kubeControlPlane
  | kubeNode
  | etcd
  | calicoRr
  deriving DecidableEq, Repr

/-- The key of the group below `all.children`. -/
def Role.name : Role → String
  | .kubeControlPlane => "kube_control_plane"
  | .kubeNode => "kube_node"
  | .etcd => "etcd"
  | .calicoRr => "calico_rr"

/-- An inventory of the builder. -/
structure Inventory where
  /-- `all.hosts`. -/
  hosts : OrdDict String Value
  /-- The `hosts` of a group. -/
  group : Role → OrdDict String Value
  /-- The group `k8s_cluster`. -/
  k8sCluster : Value

namespace Inventory

/-- A group as YAML data. -/
def groupValue (d : OrdDict String Value) : Value := .dict [("hosts", .dict d.items)]

/-- The inventory as YAML data. -/
def toValue (inv : Inventory) : Value :=
  .dict [("all", .dict [
    ("hosts", .dict inv.hosts.items),
    ("children", .dict [
      ("kube_control_plane", groupValue (inv.group .kubeControlPlane)),
      ("kube_node", groupValue (inv.group .kubeNode)),
      ("etcd", groupValue (inv.group .etcd)),
      ("k8s_cluster", inv.k8sCluster),
      ("calico_rr", groupValue (inv.group .calicoRr))])])]

/-- The inventory that `ensure_required_groups` makes of nothing. -/
def fresh : Inventory where
  hosts := .empty
  group _ := .empty
  k8sCluster := groupValue .empty

/-! ## The passes -/

/-- The hosts that `purge_invalid_hosts` keeps. -/
def keeps (hosts : OrdDict String Value) (h : String) : Bool :=
  decide (h ∈ hosts.keys ∨ h ∈ protectedNames)

/-- `purge_invalid_hosts`. -/
def purge (inv : Inventory) (hosts : OrdDict String Value) : Inventory :=
  { inv with hosts := inv.hosts.filter (keeps hosts)
             group := fun r => (inv.group r).filter (keeps hosts) }

/-- `set_all`. -/
def setAll (inv : Inventory) (hosts : OrdDict String Value) : Inventory :=
  { inv with hosts := inv.hosts.insertAll hosts.items }

/-- `set_k8s_cluster`. -/
def setK8sCluster (inv : Inventory) : Inventory := { inv with k8sCluster := k8sClusterGroup }

/-- The group entries of a list of hosts. -/
def entries (hs : List String) : List (String × Value) := hs.map fun h => (h, .none)

/-- A pass that adds hosts to one group. -/
def addTo (inv : Inventory) (r : Role) (hs : List String) : Inventory :=
  { inv with group := Function.update inv.group r ((inv.group r).insertAll (entries hs)) }

/-- Whether `set_kube_node` takes a host. -/
def nodeEligible (env : Env) (inv : Inventory) (h : String) : Bool :=
  !(decide (env.scaleThreshold ≤ inv.hosts.size) && decide (h ∈ (inv.group .etcd).keys)) &&
  !(decide (env.massiveScaleThreshold ≤ inv.hosts.size) &&
    decide (h ∈ (inv.group .kubeControlPlane).keys))

/-- The etcd hosts of a run: the first three, or the first if there are fewer. -/
def etcdHosts (hosts : OrdDict String Value) : List String :=
  hosts.keys.take (etcdHostsCount hosts)

/-- The route reflectors of a run. The key `hosts` of a group makes the conflict checks of
`set_calico_rr` pass over a host of that name, and over no other. -/
def calicoRrHosts (env : Env) (hosts : OrdDict String Value) : List String :=
  if env.scaleThreshold ≤ hosts.size then (etcdHosts hosts).filter (· ≠ "hosts") else []

/-- The inventory after the purge and `set_all`. -/
def withHosts (inv : Inventory) (hosts : OrdDict String Value) : Inventory :=
  ((inv.purge hosts).setAll hosts).setK8sCluster

/-- The inventory after `set_kube_control_plane`. -/
def withControlPlane (env : Env) (inv : Inventory) (hosts : OrdDict String Value) : Inventory :=
  ((inv.withHosts hosts).addTo .etcd (etcdHosts hosts)).addTo .kubeControlPlane
    (controlPlaneHosts env hosts)

/-- The inventory that a run makes of `inv` and its host list. -/
def place (env : Env) (inv : Inventory) (hosts : OrdDict String Value) : Inventory :=
  let inv := inv.withControlPlane env hosts
  (inv.addTo .kubeNode (hosts.keys.filter (inv.nodeEligible env))).addTo .calicoRr
    (calicoRrHosts env hosts)

end Inventory

/-! ## The passes on YAML data compute them -/

section
variable (inv : Inventory) {env : Env} {hosts : OrdDict String Value}

open Inventory

@[simp] theorem getPath_hosts :
    inv.toValue.getPath ["all", "hosts"] = .ok (.dict inv.hosts.items) :=
  rfl

@[simp] theorem getPath_group (r : Role) :
    inv.toValue.getPath ["all", "children", r.name, "hosts"] = .ok (.dict (inv.group r).items) := by
  cases r <;> rfl

/-- A change of `all.hosts` that yields a dictionary changes the host map. -/
theorem update_hosts {f : Value → Except Exc Value} {d : OrdDict String Value}
    (h : f (.dict inv.hosts.items) = .ok (.dict d.items)) :
    inv.toValue.update ["all", "hosts"] f = .ok { inv with hosts := d }.toValue := by
  simp [toValue, Assoc.lookup, Assoc.insert, h]

/-- A change of a group's `hosts` that yields a dictionary changes that group. -/
theorem update_group {r : Role} {f : Value → Except Exc Value} {d : OrdDict String Value}
    (h : f (.dict (inv.group r).items) = .ok (.dict d.items)) :
    inv.toValue.update ["all", "children", r.name, "hosts"] f =
      .ok { inv with group := Function.update inv.group r d }.toValue := by
  cases r <;>
    simp [toValue, groupValue, Role.name, Assoc.lookup, Assoc.insert, h, Function.update]

theorem Role.name_ne (r : Role) :
    r.name ≠ "all" ∧ r.name ≠ "k8s_cluster" ∧ r.name ≠ "k8s_cluster:children" := by
  cases r <;> decide

/-- `add_host_to_group` on a group. -/
theorem addHostToGroup_toValue (r : Role) (h : String) (opts : Value) :
    addHostToGroup r.name h opts inv.toValue = .ok (inv.addTo r [h]).toValue := by
  obtain ⟨hall, -, hk⟩ := r.name_ne
  simp only [addHostToGroup, if_neg hall, if_pos hk, getPath_group, ok_bind, Value.isNone,
    Bool.false_eq_true, if_false]
  exact update_group inv (d := (inv.group r).insert h .none) rfl

/-- Adding no hosts. -/
@[simp] theorem addTo_nil (r : Role) : inv.addTo r [] = inv := by simp [addTo, entries]

/-- Adding hosts one list after the other. -/
theorem addTo_append (r : Role) (hs ks : List String) :
    (inv.addTo r hs).addTo r ks = inv.addTo r (hs ++ ks) := by
  simp only [addTo, Function.update_self, Function.update_idem]
  congr 2
  ext1
  simp [entries, Assoc.insertAll]

/-- A loop of additions to one group, under a test that these additions do not change. -/
theorem foldl_addTo (r : Role) (hs : List String) (p : Inventory → String → Bool)
    (hp : ∀ inv h, p (inv.addTo r [h]) = p inv) :
    hs.foldl (fun inv h => if p inv h then inv.addTo r [h] else inv) inv =
      inv.addTo r (hs.filter (p inv)) := by
  induction hs generalizing inv with
  | nil => simp
  | cons h hs ih =>
    rw [List.foldl_cons, ih, List.filter_cons]
    split
    · rw [hp]
      exact addTo_append inv r [h] _
    · rfl

/-- `set_etcd` and `set_kube_control_plane`. -/
theorem addHosts_toValue (r : Role) (hs : List String) :
    addHosts r.name hs inv.toValue = .ok (inv.addTo r hs).toValue := by
  have hf := foldl_addTo inv r hs (fun _ _ => true) fun _ _ => rfl
  simp only [if_true, List.filter_true] at hf
  rw [← hf]
  exact foldlM_eq_ok_foldl fun inv h _ => addHostToGroup_toValue inv r h noOpts

/-- `set_all`. -/
theorem setAll_toValue : setAll hosts inv.toValue = .ok (inv.setAll hosts).toValue := by
  have hf : ∀ (ps : List (String × Value)) (inv : Inventory),
      ps.foldl (fun inv p => { inv with hosts := inv.hosts.insert p.1 p.2 }) inv =
        { inv with hosts := inv.hosts.insertAll ps } := by
    intro ps
    induction ps with
    | nil => intro inv; rfl
    | cons p ps ih => intro inv; rw [List.foldl_cons, ih]; rfl
  rw [Inventory.setAll, ← hf]
  refine foldlM_eq_ok_foldl fun inv p _ => ?_
  simp only [addHostToGroup, if_true, getPath_hosts, ok_bind, Value.isNone, Bool.false_eq_true,
    if_false, pure_eq_ok]
  exact update_hosts inv rfl

/-- `set_k8s_cluster`. -/
theorem setK8sCluster_toValue :
    setK8sCluster inv.toValue = .ok inv.setK8sCluster.toValue := by
  simp [Kubespray.setK8sCluster, toValue, groupValue, Assoc.lookup, Assoc.insert,
    Inventory.setK8sCluster]

/-! ### The purge -/

/-- Deleting the keys of a snapshot one by one filters them out. `F d` is the configuration with
the mapping `d` at `path`; each key of the snapshot is still there when its turn comes. -/
theorem foldlM_purgeHost {path : List String} {F : OrdDict String Value → Value}
    (hF : ∀ d k, k ∈ d.keys → (F d).update path (·.delItem k) = .ok (F (d.erase k)))
    (ks : List String) (d : OrdDict String Value) (hnd : ks.Nodup) (hks : ∀ k ∈ ks, k ∈ d.keys) :
    ks.foldlM (purgeHost path hosts.keys protectedNames) (F d) =
      .ok (F (d.filter fun k => keeps hosts k || decide (k ∉ ks))) := by
  induction ks generalizing d with
  | nil =>
    have he : d.filter (fun k => keeps hosts k || decide (k ∉ ([] : List String))) = d :=
      OrdDict.filter_eq_self fun k _ => by simp
    rw [he]
    rfl
  | cons k ks ih =>
    rw [List.nodup_cons] at hnd
    rw [List.foldlM_cons]
    by_cases hk : keeps hosts k = true
    · -- the host is kept: the configuration is as before
      have hstep : purgeHost path hosts.keys protectedNames (F d) k = .ok (F d) := by
        have hk' := of_decide_eq_true hk
        rw [purgeHost, if_neg (by tauto)]
      rw [hstep, ok_bind, ih d hnd.2 fun x hx => hks x (.tail _ hx)]
      congr 2
      ext1
      refine List.filter_congr fun q _ => ?_
      by_cases hq : q.1 = k
      · simp [hq, hk]
      · simp [hq]
    · have hstep : purgeHost path hosts.keys protectedNames (F d) k = .ok (F (d.erase k)) := by
        have hk' : ¬ (k ∈ hosts.keys ∨ k ∈ protectedNames) := fun h => hk (decide_eq_true h)
        rw [purgeHost, if_pos (by tauto)]
        exact hF d k (hks k (.head _))
      have hks' : ∀ x ∈ ks, x ∈ (d.erase k).keys := by
        intro x hx
        have hxk : x ≠ k := fun he => hnd.1 (he ▸ hx)
        simp [hks x (.tail _ hx), hxk]
      rw [hstep, ok_bind, ih (d.erase k) hnd.2 hks']
      congr 2
      ext1
      rw [OrdDict.erase_eq_filter, OrdDict.items_filter, OrdDict.items_filter,
        OrdDict.items_filter, List.filter_filter]
      refine List.filter_congr fun q _ => ?_
      by_cases hq : q.1 = k
      · simp [hq, hk]
      · simp [hq]

/-- `purge_invalid_hosts` on one mapping of hosts. -/
theorem purgeHosts_eq (hosts : OrdDict String Value) {path : List String}
    (F : OrdDict String Value → Value)
    (hget : ∀ d, (F d).getPath path = .ok (.dict d.items))
    (hF : ∀ d k, k ∈ d.keys → (F d).update path (·.delItem k) = .ok (F (d.erase k)))
    (d : OrdDict String Value) :
    purgeHosts path hosts.keys protectedNames (F d) = .ok (F (d.filter (keeps hosts))) := by
  simp only [purgeHosts, hget, ok_bind, Value.copyKeys]
  by_cases hd : d.items = []
  · have ht : ¬ (Value.dict d.items).truthy = true := by simp [Value.truthy, hd]
    have he : d.filter (keeps hosts) = d := OrdDict.ext (by simp [hd])
    rw [if_neg ht, he, pure_eq_ok]
  · have ht : (Value.dict d.items).truthy = true := by simpa [Value.truthy] using hd
    rw [if_pos ht]
    refine (foldlM_purgeHost hF d.keys d d.nodup fun _ h => h).trans ?_
    congr 2
    ext1
    refine List.filter_congr fun q hq => ?_
    simp [show q.1 ∈ d.keys from Assoc.mem_keys_of_mem hq]

/-- `purge_invalid_hosts` on the host map. -/
theorem purgeHosts_hosts :
    purgeHosts ["all", "hosts"] hosts.keys protectedNames inv.toValue =
      .ok { inv with hosts := inv.hosts.filter (keeps hosts) }.toValue := by
  refine purgeHosts_eq hosts (fun d => { inv with hosts := d }.toValue) ?_ ?_ inv.hosts
  · intro d
    exact getPath_hosts { inv with hosts := d }
  · intro d k hk
    exact update_hosts { inv with hosts := d } (d := d.erase k) (if_pos hk)

/-- `purge_invalid_hosts` on a group. -/
theorem purgeHosts_group (hosts : OrdDict String Value) (r : Role) :
    purgeHosts ["all", "children", r.name, "hosts"] hosts.keys protectedNames inv.toValue =
      .ok { inv with group :=
        Function.update inv.group r ((inv.group r).filter (keeps hosts)) }.toValue := by
  let withGroup (d : OrdDict String Value) : Inventory :=
    { inv with group := Function.update inv.group r d }
  have hself : withGroup (inv.group r) = inv := by simp [withGroup]
  have hget : ∀ d, (withGroup d).group r = d := fun d => Function.update_self ..
  have h := purgeHosts_eq hosts (fun d => (withGroup d).toValue)
    (fun d => by rw [getPath_group (withGroup d) r, hget])
    (fun d k hk => by
      have hu := update_group (withGroup d) (f := (·.delItem k)) (d := d.erase k)
        (by rw [hget]; exact if_pos hk)
      simpa only [withGroup, Function.update_idem] using hu)
    (inv.group r)
  rwa [hself] at h

/-- `purge_invalid_hosts`. -/
theorem purgeInvalidHosts_toValue :
    purgeInvalidHosts hosts.keys protectedNames inv.toValue = .ok (inv.purge hosts).toValue := by
  have hcp := fun inv => purgeHosts_group inv hosts .kubeControlPlane
  have hkn := fun inv => purgeHosts_group inv hosts .kubeNode
  have het := fun inv => purgeHosts_group inv hosts .etcd
  have hrr := fun inv => purgeHosts_group inv hosts .calicoRr
  simp only [Role.name] at hcp hkn het hrr
  have hchildren : inv.toValue.getPath ["all", "children"] >>= Value.iter =
      .ok ["kube_control_plane", "kube_node", "etcd", "k8s_cluster", "calico_rr"] := rfl
  obtain ⟨children, hc, hi⟩ := bind_eq_ok.1 hchildren
  simp only [purgeInvalidHosts, hc, hi, ok_bind, List.foldlM_cons, List.foldlM_nil, ne_eq,
    String.reduceEq, not_false_eq_true, not_true_eq_false, if_true, if_false, hcp, hkn, het, hrr,
    pure_eq_ok, purgeHosts_hosts]
  congr 3
  funext r
  cases r <;> rfl

/-! ### The passes with a test -/

/-- Additions to `kube_node` do not change who is taken. -/
theorem nodeEligible_addTo (h : String) :
    (inv.addTo .kubeNode [h]).nodeEligible env = inv.nodeEligible env := rfl

/-- One host of `set_kube_node`. -/
theorem setKubeNodeHost_toValue (h : String) :
    setKubeNodeHost env inv.toValue h =
      .ok (if inv.nodeEligible env h then inv.addTo .kubeNode [h] else inv).toValue := by
  have hetcd := getPath_group inv .etcd
  have hcp := getPath_group inv .kubeControlPlane
  have hadd := addHostToGroup_toValue inv .kubeNode h noOpts
  simp only [Role.name] at hetcd hcp hadd
  simp only [setKubeNodeHost, getPath_hosts, hetcd, hcp, ok_bind, Value.len, Value.contains,
    pure_eq_ok, hadd, nodeEligible, OrdDict.size, OrdDict.keys]
  by_cases hs : env.scaleThreshold ≤ inv.hosts.items.length <;>
  by_cases he : h ∈ Assoc.keys (inv.group .etcd).items <;>
  by_cases hm : env.massiveScaleThreshold ≤ inv.hosts.items.length <;>
  by_cases hc : h ∈ Assoc.keys (inv.group .kubeControlPlane).items <;>
  simp only [hs, he, hm, hc, if_true, if_false, decide_true, decide_false, Bool.and_true,
    Bool.and_false, Bool.not_true, Bool.not_false, Bool.false_eq_true]

/-- `set_kube_node`. -/
theorem setKubeNode_toValue (hs : List String) :
    setKubeNode env hs inv.toValue =
      .ok (inv.addTo .kubeNode (hs.filter (inv.nodeEligible env))).toValue := by
  rw [← foldl_addTo inv .kubeNode hs (fun inv => inv.nodeEligible env)
    fun inv => nodeEligible_addTo inv]
  exact foldlM_eq_ok_foldl fun inv h _ => setKubeNodeHost_toValue inv h

/-- One host of `set_calico_rr`: the only key of a group is `hosts`. -/
theorem setCalicoRrHost_toValue (h : String) :
    setCalicoRrHost inv.toValue h =
      .ok (if h ≠ "hosts" then inv.addTo .calicoRr [h] else inv).toValue := by
  have hadd := addHostToGroup_toValue inv .calicoRr h noOpts
  have hcp : inv.toValue.getPath ["all", "children", "kube_control_plane"] =
      .ok (groupValue (inv.group .kubeControlPlane)) := rfl
  have hkn : inv.toValue.getPath ["all", "children", "kube_node"] =
      .ok (groupValue (inv.group .kubeNode)) := rfl
  simp only [Role.name] at hadd
  simp only [setCalicoRrHost, hcp, hkn, ok_bind, groupValue, Value.contains, hadd]
  by_cases hh : h = "hosts" <;> simp [hh]

/-- `set_calico_rr`. -/
theorem setCalicoRr_toValue (hs : List String) :
    setCalicoRr hs inv.toValue = .ok (inv.addTo .calicoRr (hs.filter (· ≠ "hosts"))).toValue := by
  rw [← foldl_addTo inv .calicoRr hs (fun _ h => h ≠ "hosts") fun _ _ => rfl]
  refine foldlM_eq_ok_foldl fun inv h _ => ?_
  simpa using setCalicoRrHost_toValue inv h

/-- The passes of a run compute `Inventory.place`. -/
theorem setGroups_toValue :
    setGroups env hosts inv.toValue = .ok (inv.place env hosts).toValue := by
  have hetcd := fun inv hs => addHosts_toValue inv .etcd hs
  have hcp := fun inv hs => addHosts_toValue inv .kubeControlPlane hs
  simp only [Role.name] at hetcd hcp
  simp only [setGroups, purgeInvalidHosts_toValue, setAll_toValue, setK8sCluster_toValue, setEtcd,
    setKubeControlPlane, hetcd, hcp, setKubeNode_toValue, setCalicoRr_toValue, ok_bind, place,
    calicoRrHosts, withControlPlane, withHosts, etcdHosts, pure_eq_ok]
  split
  · rfl
  · rw [addTo_nil]

/-! ### The configuration a run starts from -/

/-- `ensure_required_groups` leaves an inventory of the builder alone. -/
theorem ensureRequiredGroups_toValue : ensureRequiredGroups roles inv.toValue = .ok inv.toValue :=
    rfl

end

/-! ## What a run leaves in the inventory -/

namespace Inventory

/-- The hosts that a run adds to each group. -/
def added (env : Env) (inv : Inventory) (hosts : OrdDict String Value) : Role → List String
  | .kubeControlPlane => controlPlaneHosts env hosts
  | .kubeNode => hosts.keys.filter ((inv.withControlPlane env hosts).nodeEligible env)
  | .etcd => etcdHosts hosts
  | .calicoRr => calicoRrHosts env hosts

/-- The inventories that runs produce: the members of groups are hosts, the route reflectors are
etcd hosts, and every host has the options that the builder gives. -/
structure WellFormed (inv : Inventory) : Prop where
  members : ∀ r, ∀ h ∈ (inv.group r).keys, h ∈ inv.hosts.keys
  calicoRr_etcd : ∀ h ∈ (inv.group .calicoRr).keys, h ∈ (inv.group .etcd).keys
  opts : ∀ p ∈ inv.hosts.items, ∃ accessIp ip, p.2 = hostOpts accessIp ip
  k8sCluster : inv.k8sCluster = groupValue .empty ∨ inv.k8sCluster = k8sClusterGroup

section
variable {env : Env} {inv : Inventory} {hosts : OrdDict String Value} {h : String}

@[simp] theorem keys_entries (hs : List String) : Assoc.keys (entries hs) = hs := by
  rw [Assoc.keys, entries, List.map_map]
  exact List.map_id _

@[simp] theorem keeps_iff : keeps hosts h = true ↔ h ∈ hosts.keys ∨ h ∈ protectedNames :=
  decide_eq_true_iff

theorem place_hosts :
    (inv.place env hosts).hosts = (inv.hosts.filter (keeps hosts)).insertAll hosts.items := rfl

theorem place_group (r : Role) :
    (inv.place env hosts).group r =
      ((inv.group r).filter (keeps hosts)).insertAll (entries (inv.added env hosts r)) := by
  cases r <;> rfl

/-- The hosts of the written inventory: the new list and what the purge keeps of the old one. -/
theorem mem_place_hosts :
    h ∈ (inv.place env hosts).hosts.keys ↔
      h ∈ hosts.keys ∨ h ∈ inv.hosts.keys ∧ h ∈ protectedNames := by
  rw [place_hosts, OrdDict.mem_keys_insertAll, OrdDict.keys_filter, List.mem_filter, keeps_iff]
  show _ ∨ h ∈ hosts.keys ↔ _
  tauto

/-- Every host of the list is in the written inventory. -/
theorem size_le_place (env : Env) (inv : Inventory) (hosts : OrdDict String Value) :
    hosts.size ≤ (inv.place env hosts).hosts.size :=
  OrdDict.size_le_of_keys_subset fun _ hm => mem_place_hosts.2 (.inl hm)

/-- The members of a group: the hosts the run adds and what the purge keeps of the old ones. -/
theorem mem_place_group {r : Role} :
    h ∈ ((inv.place env hosts).group r).keys ↔
      h ∈ inv.added env hosts r ∨
        h ∈ (inv.group r).keys ∧ (h ∈ hosts.keys ∨ h ∈ protectedNames) := by
  rw [place_group, OrdDict.mem_keys_insertAll, OrdDict.keys_filter, List.mem_filter, keeps_iff,
    keys_entries, or_comm]

theorem length_etcdHosts_eq_min :
    (etcdHosts hosts).length = min (etcdHostsCount hosts) hosts.size := by
  rw [etcdHosts, List.length_take, OrdDict.length_keys]

/-- A route reflector of a run is an etcd host of it. -/
theorem mem_etcdHosts_of_mem_calicoRrHosts (hm : h ∈ calicoRrHosts env hosts) :
    h ∈ etcdHosts hosts := by
  unfold calicoRrHosts at hm
  split at hm
  · exact List.mem_of_mem_filter hm
  · cases hm

/-- A run adds hosts of its list to a group, in their order. -/
theorem added_sublist (r : Role) : (inv.added env hosts r).Sublist hosts.keys := by
  cases r with
  | kubeControlPlane =>
    show (controlPlaneHosts env hosts).Sublist hosts.keys
    unfold controlPlaneHosts
    split
    · exact slice_sublist _ _ _
    · exact slice_sublist _ _ _
  | kubeNode => exact List.filter_sublist
  | etcd => exact List.take_sublist _ _
  | calicoRr =>
    show (calicoRrHosts env hosts).Sublist hosts.keys
    unfold calicoRrHosts
    split
    · exact List.filter_sublist.trans (List.take_sublist _ _)
    · exact List.nil_sublist _

/-- Only hosts of the list are added to groups. -/
theorem mem_of_mem_added {r : Role} (hm : h ∈ inv.added env hosts r) : h ∈ hosts.keys :=
  (added_sublist r).subset hm

/-- The hosts that `set_kube_node` takes, in terms of the groups of the written inventory. -/
theorem mem_added_kubeNode :
    h ∈ inv.added env hosts .kubeNode ↔ h ∈ hosts.keys ∧
      (env.scaleThreshold ≤ (inv.place env hosts).hosts.size →
        h ∉ ((inv.place env hosts).group .etcd).keys) ∧
      (env.massiveScaleThreshold ≤ (inv.place env hosts).hosts.size →
        h ∉ ((inv.place env hosts).group .kubeControlPlane).keys) := by
  have hetcd : (inv.withControlPlane env hosts).group .etcd = (inv.place env hosts).group .etcd :=
      rfl
  have hcp : (inv.withControlPlane env hosts).group .kubeControlPlane =
      (inv.place env hosts).group .kubeControlPlane := rfl
  have hh : (inv.withControlPlane env hosts).hosts = (inv.place env hosts).hosts := rfl
  simp [added, nodeEligible, hetcd, hcp, hh, imp_iff_not_or]

/-- From the scale threshold on, the control plane hosts of a run are none of its etcd hosts. -/
theorem not_mem_controlPlaneHosts (hs : env.scaleThreshold ≤ hosts.size)
    (he : h ∈ etcdHosts hosts) : h ∉ controlPlaneHosts env hosts := by
  rw [controlPlaneHosts, if_pos hs]
  intro hm
  have hd := mem_of_mem_slice hm
  have hnd := hosts.nodup_keys
  rw [← List.take_append_drop (etcdHostsCount hosts) hosts.keys, List.nodup_append] at hnd
  exact hnd.2.2 h he h hd rfl

/-- From the scale threshold on, no etcd host is added to `kube_node`. -/
theorem not_mem_added_kubeNode (hs : env.scaleThreshold ≤ hosts.size)
    (he : h ∈ ((inv.place env hosts).group .etcd).keys) : h ∉ inv.added env hosts .kubeNode := by
  intro hm
  have hle : (hosts.size : Int) ≤ (inv.place env hosts).hosts.size := by
    exact_mod_cast size_le_place env inv hosts
  exact (mem_added_kubeNode.1 hm).2.1 (Int.le_trans hs hle) he

/-- The hosts of a created inventory are those of the list. -/
theorem fresh_place_hosts (env : Env) : (fresh.place env hosts).hosts = hosts :=
  OrdDict.insertAll_of_items_eq_append rfl

/-- The groups of a created inventory have the hosts that the run adds to them. -/
theorem fresh_place_group (env : Env) (r : Role) :
    ((fresh.place env hosts).group r).keys = fresh.added env hosts r := by
  have hnd : (Assoc.keys (([] : List (String × Value)) ++
      entries (fresh.added env hosts r))).Nodup := by
    rw [List.nil_append, keys_entries]
    exact hosts.nodup_keys.sublist (added_sublist r)
  rw [place_group, OrdDict.keys, OrdDict.items_insertAll]
  show Assoc.keys (Assoc.insertAll [] _) = _
  rw [Assoc.insertAll_append hnd, List.nil_append, keys_entries]

theorem fresh_wellFormed : fresh.WellFormed where
  members _ _ h := absurd h List.not_mem_nil
  calicoRr_etcd _ h := absurd h List.not_mem_nil
  opts _ h := absurd h List.not_mem_nil
  k8sCluster := .inl rfl

/-- A run keeps an inventory well formed. -/
theorem WellFormed.place (hw : inv.WellFormed)
    (hopts : ∀ p ∈ hosts.items, ∃ accessIp ip, p.2 = hostOpts accessIp ip) :
    (inv.place env hosts).WellFormed where
  members r h hm := by
    rw [mem_place_hosts]
    rcases mem_place_group.1 hm with hm | ⟨hm, hk⟩
    · exact .inl (mem_of_mem_added hm)
    · exact hk.imp_right fun hp => ⟨hw.members r h hm, hp⟩
  calicoRr_etcd h hm := by
    rw [mem_place_group]
    rcases mem_place_group.1 hm with hm | ⟨hm, hk⟩
    · exact .inl (mem_etcdHosts_of_mem_calicoRrHosts hm)
    · exact .inr ⟨hw.calicoRr_etcd h hm, hk⟩
  opts p hp := by
    rw [place_hosts] at hp
    rcases (OrdDict.mem_items_insertAll hosts.nodup).1 hp with hp | ⟨hp, -⟩
    · exact hopts p hp
    · exact hw.opts p (List.mem_of_mem_filter hp)
  k8sCluster := .inr rfl

end

end Inventory

end Kubespray
