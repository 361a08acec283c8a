import Kubespray.Lib.Playbook
import Kubespray.Network.CalicoRuns
import Kubespray.Network.RouteReflector

/-!
# The resources of the BGP sessions

A run of `cluster.yml` sets whether the nodes form a full mesh, makes the two `BGPPeer` resources if
there are route reflectors, and then gives the hosts of `calico_rr` their cluster IDs and their
labels (`peeringTasks`). Nothing of this is ever taken back; the nodes come and go, and a run stops
anywhere: with `any_errors_fatal`, which is on by default, after the task that fails on some host.

The runs keep `PeeringInv`: a node gets its label only after its cluster ID, and after both `BGPPeer`
resources.
-/

open Py (Value)
open Py.Value (combine getPath getPath_combine_of_gives getPath_combine_of_not_mentions)

namespace Kubespray

/-! ## The tasks -/

def nodeKey (name : String) : ResourceKey := ("Node", name)

/-- A host of `calico_rr`. -/
structure Reflector where
  name : String
  /-- The variable `cluster_id`, if it is defined. -/
  cluster_id : Option String
  cluster_id_ne : cluster_id ≠ some ""

/-- The variables and the group `calico_rr` of a run. -/
structure PeeringRun where
  vars : CalicoVars
  calico_rr : List Reflector
  /-- The default of `peer_with_calico_rr`. -/
  peer_with_calico_rr : vars.peer_with_calico_rr = !calico_rr.isEmpty

/-- The `BGPPeer` resources for route reflectors. -/
inductive ReflectorPeer where
  | peerToRrs
  | rrMesh

namespace ReflectorPeer

def name : ReflectorPeer → String
  | peerToRrs => "peer-to-rrs"
  | rrMesh => "rr-mesh"

def nodeSelector : ReflectorPeer → String
  | peerToRrs => "!has(i-am-a-route-reflector)"
  | rrMesh => "has(i-am-a-route-reflector)"

def peerSelector : ReflectorPeer → String
  | peerToRrs | rrMesh => "has(i-am-a-route-reflector)"

/-- The document that is applied. -/
def document (p : ReflectorPeer) : Value :=
  .dict [("apiVersion", .str "projectcalico.org/v3"), ("kind", .str "BGPPeer"),
    ("metadata", .dict [("name", .str p.name)]),
    ("spec", .dict [("nodeSelector", .str p.nodeSelector), ("peerSelector", .str p.peerSelector)])]

def key (p : ReflectorPeer) : ResourceKey := ("BGPPeer", p.name)

end ReflectorPeer

/-- The label of a route reflector. -/
def labelPath : List String := ["metadata", "labels", "i-am-a-route-reflector"]

/-- `calicoctl.sh label node ... 'i-am-a-route-reflector=true' --overwrite`. -/
def labelSettings : Value :=
  .dict [("metadata", .dict [("labels", .dict [("i-am-a-route-reflector", .str "true")])])]

/-- The settings are combined with the node object, if there is one. -/
def combineNode (settings : Value) (ds : Datastore) (name : String) : Datastore :=
  Function.update ds (nodeKey name) ((ds (nodeKey name)).map fun d => combine d settings)

/-- A task on these hosts. -/
def combineNodes (settings : Reflector → Value) (rs : List Reflector) (ds : Datastore) :
    Datastore :=
  rs.foldl (fun ds r => combineNode (settings r) ds r.name) ds

/-- `update-node.yml`. -/
def updateNodes : List Reflector → Datastore → Datastore :=
  combineNodes fun r => clusterIdSettings (r.cluster_id.getD "")

/-- `Calico-rr | Set label for route reflector`. -/
def labelNodes : List Reflector → Datastore → Datastore :=
  combineNodes fun _ => labelSettings

/-- The tasks that bear on the BGP sessions, each on all of its hosts. -/
inductive PeeringTask where
  /-- `Calico | Set up BGP Configuration`. -/
  | bgpConfig (v : CalicoVars)
  /-- An item of `Calico | Configure peering with route reflectors at global scope` or of
  `Calico | Configure route reflectors to peer with each other`. -/
  | peer (p : ReflectorPeer)
  /-- `Calico-rr | Configuring node tasks`. -/
  | updateNodes (rs : List Reflector)
  /-- `Calico-rr | Set label for route reflector`. -/
  | labelNodes (rs : List Reflector)

/-- The tasks of a run. -/
def peeringTasks (r : PeeringRun) : List PeeringTask :=
  [.bgpConfig r.vars] ++ r.calico_rr.map (fun _ => .peer .peerToRrs) ++
    r.calico_rr.map (fun _ => .peer .rrMesh) ++ [.updateNodes r.calico_rr, .labelNodes r.calico_rr]

def IsNode (ds : Datastore) (name : String) : Prop := (ds (nodeKey name)).isSome = true

/-- A task succeeds. The BGP configuration is read before it is applied, and it may be that `get`
fails; the tasks on node objects need these, and the first one also the variable `cluster_id`. -/
def PeeringTask.exec : PeeringTask → Datastore → Datastore → Prop
  | .bgpConfig v, ds, ds' => ∃ read, ds' = configure (fun _ => read) ds (Kubespray.bgpConfig v)
  | .peer p, ds, ds' => ds' = Function.update ds p.key (some p.document)
  | .updateNodes rs, ds, ds' =>
    (∀ r ∈ rs, IsNode ds r.name ∧ r.cluster_id.isSome = true) ∧ ds' = Kubespray.updateNodes rs ds
  | .labelNodes rs, ds, ds' => (∀ r ∈ rs, IsNode ds r.name) ∧ ds' = Kubespray.labelNodes rs ds

/-- A task fails: on some of its hosts it may have succeeded. -/
def PeeringTask.fail : PeeringTask → Datastore → Datastore → Prop
  | .updateNodes rs, ds, ds' => ∃ done, done.Sublist rs ∧ exec (.updateNodes done) ds ds'
  | .labelNodes rs, ds, ds' => ∃ done, done.Sublist rs ∧ exec (.labelNodes done) ds ds'
  | t, ds, ds' => ds' = ds ∨ exec t ds ds'

/-! ## The datastore -/

/-- `nodeToNodeMeshEnabled` of the BGP configuration. -/
def meshPath : List String := ["spec", "nodeToNodeMeshEnabled"]

def nodeSelectorPath : List String := ["spec", "nodeSelector"]

def peerSelectorPath : List String := ["spec", "peerSelector"]

/-- The fields that the sessions depend on. -/
def peeringPaths : List (List String) :=
  [meshPath, nodeSelectorPath, peerSelectorPath, labelPath, clusterIdPath]

/-- The node object has a cluster ID. -/
def SaysClusterId (d : Value) : Prop := ∃ id, id ≠ "" ∧ getPath clusterIdPath d = .ok (.str id)

/-- The node object has the label. -/
def SaysLabel (d : Value) : Prop := ∃ x, getPath labelPath d = .ok x

/-- The node is there, and its object has this property. -/
def NodeHas (P : Value → Prop) (ds : Datastore) (name : String) : Prop :=
  ∃ d, ds (nodeKey name) = some d ∧ P d

/-- The node has a cluster ID: it reflects routes. -/
abbrev IsReflector : Datastore → String → Prop := NodeHas SaysClusterId

/-- The node has the label. -/
abbrev Labelled : Datastore → String → Prop := NodeHas SaysLabel

/-- The resource joins the nodes that it selects. -/
structure ReflectorPeer.SaidBy (p : ReflectorPeer) (d : Value) : Prop where
  nodeSelector : getPath nodeSelectorPath d = .ok (.str p.nodeSelector)
  peerSelector : getPath peerSelectorPath d = .ok (.str p.peerSelector)

def Peered (p : ReflectorPeer) (ds : Datastore) : Prop := ∃ d, ds p.key = some d ∧ p.SaidBy d

/-- What others do: a node comes, a router is peered with, or a resource is written to and the
fields that the sessions depend on are kept. -/
inductive PeeringChange : Datastore → Datastore → Prop
  | node {ds : Datastore} (name : String) (d : Value) (hnew : ds (nodeKey name) = none)
    (hid : ¬ SaysClusterId d) (hlabel : ¬ SaysLabel d) :
    PeeringChange ds (Function.update ds (nodeKey name) (some d))
  | router {ds : Datastore} (name : String) (d : Value)
    (hname : ∀ p : ReflectorPeer, name ≠ p.name) (hd : ∀ x, getPath peerSelectorPath d ≠ .ok x) :
    PeeringChange ds (Function.update ds ("BGPPeer", name) (some d))
  | write {ds : Datastore} (key : ResourceKey) (f : Value → Value)
    (hf : ∀ p ∈ peeringPaths, ∀ d, getPath p (f d) = getPath p d) :
    PeeringChange ds (Function.update ds key ((ds key).map f))

/-- A node is removed. -/
def NodeRemoved (ds ds' : Datastore) : Prop :=
  ∃ name, ds' = Function.update ds (nodeKey name) none

/-- No node has the label yet, and there are no `BGPPeer` resources. -/
structure Unpeered (ds : Datastore) : Prop where
  label : ∀ name, ¬ Labelled ds name
  peer : ∀ name, ds ("BGPPeer", name) = none

section
variable {ds ds' : Datastore} {a b name : String} {P : Value → Prop} {settings : Reflector → Value}
  {rs : List Reflector} {r : Reflector} {p : ReflectorPeer}

/-! ## Node objects -/

theorem NodeHas.isNode (h : NodeHas P ds name) : IsNode ds name := by
  obtain ⟨d, hd, -⟩ := h
  rw [IsNode, hd]
  rfl

theorem isNode_iff : IsNode ds name ↔ ∃ d, ds (nodeKey name) = some d := Option.isSome_iff_exists

/-- Another value under a key keeps what it does not take from a node object. -/
theorem NodeHas.update {key : ResourceKey} {x : Option Value} (h : NodeHas P ds name)
    (hx : ∀ d, ds key = some d → P d → ∃ d', x = some d' ∧ P d') :
    NodeHas P (Function.update ds key x) name := by
  obtain ⟨d, hd, hP⟩ := h
  by_cases hkey : nodeKey name = key
  · subst hkey
    obtain ⟨d', rfl, hP'⟩ := hx d hd hP
    exact ⟨d', Function.update_self .., hP'⟩
  · exact ⟨d, (Function.update_of_ne hkey ..).trans hd, hP⟩

theorem NodeHas.combineNode {s : Value} (h : NodeHas P ds name)
    (hs : ∀ d, P d → P (combine d s)) : NodeHas P (combineNode s ds a) name := by
  refine h.update fun d hd hP => ⟨combine d s, ?_, hs d hP⟩
  rw [hd]
  rfl

/-- A task on node objects keeps what its settings keep. -/
theorem NodeHas.combineNodes (h : NodeHas P ds name)
    (hs : ∀ r ∈ rs, ∀ d, P d → P (combine d (settings r))) :
    NodeHas P (combineNodes settings rs ds) name := by
  induction rs generalizing ds with
  | nil => exact h
  | cons r rs ih =>
    exact ih (h.combineNode (hs r List.mem_cons_self)) fun r hr => hs r (List.mem_cons_of_mem _ hr)

theorem isNode_combineNode {s : Value} (h : IsNode ds name) : IsNode (combineNode s ds a) name := by
  obtain ⟨d, hd⟩ := isNode_iff.1 h
  have hnode : NodeHas (fun _ => True) ds name := ⟨d, hd, trivial⟩
  exact (hnode.combineNode fun _ _ => trivial).isNode

/-- A task on node objects gives each of its hosts what its settings give. -/
theorem nodeHas_combineNodes (hs : ∀ r ∈ rs, ∀ d, P (combine d (settings r)))
    (hnode : ∀ r ∈ rs, IsNode ds r.name) (hr : r ∈ rs) :
    NodeHas P (combineNodes settings rs ds) r.name := by
  induction rs generalizing ds with
  | nil => cases hr
  | cons r' rs ih =>
    rw [combineNodes, List.foldl_cons]
    have hrest : ∀ r ∈ rs, ∀ d, P (combine d (settings r)) :=
      fun r hr => hs r (List.mem_cons_of_mem _ hr)
    rcases List.mem_cons.1 hr with rfl | hr
    · obtain ⟨d, hd⟩ := isNode_iff.1 (hnode r List.mem_cons_self)
      have hself : NodeHas P (combineNode (settings r) ds r.name) r.name := by
        refine ⟨combine d (settings r), ?_, hs r List.mem_cons_self d⟩
        rw [combineNode, Function.update_self, hd]
        rfl
      exact hself.combineNodes fun r hr d _ => hrest r hr d
    · exact ih hrest (fun r hr => isNode_combineNode (hnode r (List.mem_cons_of_mem _ hr))) hr

theorem combineNodes_of_ne {key : ResourceKey} (hkey : key.1 ≠ "Node") :
    combineNodes settings rs ds key = ds key := by
  induction rs generalizing ds with
  | nil => rfl
  | cons r rs ih =>
    have hne : key ≠ nodeKey r.name := fun heq => hkey (heq ▸ rfl)
    exact ih.trans (Function.update_of_ne hne ..)

/-! ## The settings -/

theorem keyed_labelSettings : Py.Value.Keyed labelSettings :=
  keyed_single (keyed_single (keyed_single (keyed_str _)))

theorem str_ne_dict (s : String) (kvs : List (String × Value)) : Value.str s ≠ .dict kvs := by
  intro h
  cases h

theorem saysLabel_combine (d : Value) : SaysLabel (combine d labelSettings) :=
  ⟨.str "true", getPath_combine_of_gives keyed_labelSettings rfl (str_ne_dict _) d⟩

theorem SaysLabel.combine_clusterId {d : Value} (h : SaysLabel d) (id : String) :
    SaysLabel (combine d (clusterIdSettings id)) := by
  obtain ⟨x, hx⟩ := h
  refine ⟨x, getPath_combine_of_not_mentions (keyed_clusterIdSettings id) ?_ hx⟩
  rintro ⟨_, hlookup, -⟩
  cases hlookup

theorem saysClusterId_combine {id : String} (hid : id ≠ "") (d : Value) :
    SaysClusterId (combine d (clusterIdSettings id)) :=
  ⟨id, hid, getPath_combine_of_gives (keyed_clusterIdSettings id) rfl (str_ne_dict id) d⟩

theorem SaysClusterId.combine_label {d : Value} (h : SaysClusterId d) :
    SaysClusterId (combine d labelSettings) := by
  obtain ⟨id, hid, hd⟩ := h
  refine ⟨id, hid, getPath_combine_of_not_mentions keyed_labelSettings ?_ hd⟩
  rintro ⟨_, hlookup, -⟩
  cases hlookup

theorem Reflector.clusterId_ne (hr : r.cluster_id.isSome = true) : r.cluster_id.getD "" ≠ "" := by
  obtain ⟨id, hid⟩ := Option.isSome_iff_exists.1 hr
  rw [hid, Option.getD_some]
  rintro rfl
  exact r.cluster_id_ne hid

theorem ReflectorPeer.saidBy_document (p : ReflectorPeer) : p.SaidBy p.document := ⟨rfl, rfl⟩

theorem ReflectorPeer.key_inj {q : ReflectorPeer} (h : p.key = q.key) : p = q := by
  cases p <;> cases q
  · rfl
  · exact absurd (Prod.mk.inj h).2 (by decide)
  · exact absurd (Prod.mk.inj h).2 (by decide)
  · rfl

/-! ## Steps -/

theorem nodeKey_ne {key : ResourceKey} (h : key.1 ≠ "Node") : nodeKey name ≠ key :=
  fun heq => h (heq ▸ rfl)

theorem NodeHas.update_of_ne {key : ResourceKey} {x : Option Value} (hkey : key.1 ≠ "Node")
    (h : NodeHas P ds name) : NodeHas P (Function.update ds key x) name := by
  obtain ⟨d, hd, hP⟩ := h
  exact ⟨d, (Function.update_of_ne (nodeKey_ne hkey) ..).trans hd, hP⟩

theorem ReflectorPeer.key_ne {key : ResourceKey} (h : key.1 ≠ "BGPPeer") : p.key ≠ key :=
  fun heq => h (heq ▸ rfl)

/-- What neither the tasks nor the others take back while a run is in progress. -/
structure Extends (ds ds' : Datastore) : Prop where
  reflector : ∀ name, IsReflector ds name → IsReflector ds' name
  label : ∀ name, Labelled ds name → Labelled ds' name
  peer : ∀ p, Peered p ds → Peered p ds'

/-- The BGP configuration says this of the mesh. -/
def MeshIs (x : Value) (ds : Datastore) : Prop :=
  ∃ d, ds bgpKey = some d ∧ getPath meshPath d = .ok x

theorem Extends.refl (ds : Datastore) : Extends ds ds :=
  ⟨fun _ h => h, fun _ h => h, fun _ h => h⟩

/-- A change of a resource that is neither a node nor one of the two `BGPPeer` resources. -/
theorem Extends.of_ne {key : ResourceKey} {x : Option Value} (hnode : key.1 ≠ "Node")
    (hpeer : ∀ p : ReflectorPeer, key ≠ p.key) : Extends ds (Function.update ds key x) := by
  refine ⟨fun _ h => h.update_of_ne hnode, fun _ h => h.update_of_ne hnode, ?_⟩
  rintro p ⟨d, hd, hp⟩
  exact ⟨d, (Function.update_of_ne (hpeer p).symm ..).trans hd, hp⟩

theorem Extends.peer_applied (p : ReflectorPeer) (ds : Datastore) :
    Extends ds (Function.update ds p.key (some p.document)) := by
  have hnode : p.key.1 ≠ "Node" := show "BGPPeer" ≠ "Node" by decide
  refine ⟨fun _ h => h.update_of_ne hnode, fun _ h => h.update_of_ne hnode, ?_⟩
  rintro q ⟨d, hd, hq⟩
  by_cases heq : p.key = q.key
  · cases ReflectorPeer.key_inj heq
    exact ⟨p.document, Function.update_self .., p.saidBy_document⟩
  · exact ⟨d, (Function.update_of_ne (Ne.symm heq) ..).trans hd, hq⟩

theorem Extends.combineNodes (hid : ∀ r ∈ rs, ∀ d, SaysClusterId d →
      SaysClusterId (combine d (settings r)))
    (hlabel : ∀ r ∈ rs, ∀ d, SaysLabel d → SaysLabel (combine d (settings r))) :
    Extends ds (combineNodes settings rs ds) where
  reflector _ h := h.combineNodes hid
  label _ h := h.combineNodes hlabel
  peer p := by
    rintro ⟨d, hd, hp⟩
    exact ⟨d, (combineNodes_of_ne (show "BGPPeer" ≠ "Node" by decide)).trans hd, hp⟩

theorem PeeringTask.exec_extends {t : PeeringTask} (h : t.exec ds ds') : Extends ds ds' := by
  cases t with
  | bgpConfig v =>
    obtain ⟨read, rfl⟩ := h
    exact .of_ne (show "BGPConfiguration" ≠ "Node" by decide) fun p =>
      (ReflectorPeer.key_ne (show "BGPConfiguration" ≠ "BGPPeer" by decide)).symm
  | peer p =>
    cases h
    exact .peer_applied p ds
  | updateNodes rs =>
    obtain ⟨hnode, rfl⟩ := h
    exact .combineNodes
      (fun r hr d _ => saysClusterId_combine (Reflector.clusterId_ne (hnode r hr).2) d)
      fun r _ d hd => hd.combine_clusterId _
  | labelNodes rs =>
    obtain ⟨-, rfl⟩ := h
    exact .combineNodes (fun _ _ d hd => hd.combine_label) fun _ _ d _ => saysLabel_combine d

/-- A task that fails leaves the datastore as it is, or succeeds on some of its hosts. -/
theorem PeeringTask.fail_cases {t : PeeringTask} (h : t.fail ds ds') :
    ds' = ds ∨ t.exec ds ds' ∨
      (∃ rs done, t = .updateNodes rs ∧ done.Sublist rs ∧ exec (.updateNodes done) ds ds') ∨
      ∃ rs done, t = .labelNodes rs ∧ done.Sublist rs ∧ exec (.labelNodes done) ds ds' := by
  cases t with
  | bgpConfig v => exact h.imp_right .inl
  | peer p => exact h.imp_right .inl
  | updateNodes rs =>
    obtain ⟨done, hsub, hexec⟩ := h
    exact .inr (.inr (.inl ⟨rs, done, rfl, hsub, hexec⟩))
  | labelNodes rs =>
    obtain ⟨done, hsub, hexec⟩ := h
    exact .inr (.inr (.inr ⟨rs, done, rfl, hsub, hexec⟩))

/-- A write that keeps the fields keeps what they say. -/
theorem getPath_write (key : ResourceKey) {key' : ResourceKey} {f : Value → Value} {d : Value}
    (hf : ∀ p ∈ peeringPaths, ∀ d, getPath p (f d) = getPath p d) (hd : ds key' = some d) :
    ∃ d', Function.update ds key ((ds key).map f) key' = some d' ∧
      ∀ p ∈ peeringPaths, getPath p d' = getPath p d := by
  by_cases hkey : key' = key
  · subst hkey
    rw [Function.update_self, hd]
    exact ⟨f d, rfl, fun p hp => hf p hp d⟩
  · exact ⟨d, (Function.update_of_ne hkey ..).trans hd, fun _ _ => rfl⟩

theorem PeeringChange.extends (h : PeeringChange ds ds') : Extends ds ds' := by
  cases h with
  | node name d hnew _ _ =>
    have hnone (x : Value) (hx : ds (nodeKey name) = some x) : False := by
      rw [hnew] at hx
      cases hx
    refine ⟨fun a h => ?_, fun a h => ?_, fun p ⟨x, hx, hp⟩ => ⟨x, ?_, hp⟩⟩
    · exact h.update fun x hx _ => (hnone x hx).elim
    · exact h.update fun x hx _ => (hnone x hx).elim
    · have hkey : p.key ≠ nodeKey name :=
        ReflectorPeer.key_ne (show "Node" ≠ "BGPPeer" by decide)
      exact (Function.update_of_ne hkey ..).trans hx
  | router name d hname _ =>
    exact .of_ne (show "BGPPeer" ≠ "Node" by decide) fun p heq => hname p (Prod.mk.inj heq).2
  | write key f hf =>
    refine ⟨fun a ⟨d, hd, id, hid, h⟩ => ?_, fun a ⟨d, hd, x, h⟩ => ?_, fun p ⟨d, hd, hp⟩ => ?_⟩
    · obtain ⟨d', hd', hkept⟩ := getPath_write key hf hd
      exact ⟨d', hd', id, hid, (hkept clusterIdPath (by simp [peeringPaths])).trans h⟩
    · obtain ⟨d', hd', hkept⟩ := getPath_write key hf hd
      exact ⟨d', hd', x, (hkept labelPath (by simp [peeringPaths])).trans h⟩
    · obtain ⟨d', hd', hkept⟩ := getPath_write key hf hd
      exact ⟨d', hd', (hkept nodeSelectorPath (by simp [peeringPaths])).trans hp.nodeSelector,
        (hkept peerSelectorPath (by simp [peeringPaths])).trans hp.peerSelector⟩

/-! ## What the tasks achieve -/

/-- What a task has achieved. -/
def PeeringTask.Done : PeeringTask → Datastore → Prop
  | .bgpConfig v, ds => MeshIs (.bool !(v.peer_with_router || v.peer_with_calico_rr)) ds
  | .peer p, ds => Peered p ds
  | .updateNodes rs, ds => ∀ r ∈ rs, IsReflector ds r.name
  | .labelNodes rs, ds => ∀ r ∈ rs, Labelled ds r.name

/-- The settings of the BGP configuration say whether the nodes form a full mesh. -/
theorem lookup_bgpSpec (v : CalicoVars) : Assoc.lookup "nodeToNodeMeshEnabled" (bgpSpec v) =
    some (.bool !(v.peer_with_router || v.peer_with_calico_rr)) := by
  rw [bgpSpec]
  split <;> rfl

theorem meshIs_configure (read : Bool) (v : CalicoVars) (ds : Datastore) :
    MeshIs (.bool !(v.peer_with_router || v.peer_with_calico_rr))
      (configure (fun _ => read) ds (bgpConfig v)) :=
  getPath_configure (r := bgpConfig v) (lookup_bgpSpec v)

theorem PeeringTask.done_of_exec {t : PeeringTask} (h : t.exec ds ds') : t.Done ds' := by
  cases t with
  | bgpConfig v =>
    obtain ⟨read, rfl⟩ := h
    exact meshIs_configure read v ds
  | peer p =>
    cases h
    exact ⟨p.document, Function.update_self .., p.saidBy_document⟩
  | updateNodes rs =>
    obtain ⟨hnode, rfl⟩ := h
    exact fun r hr => nodeHas_combineNodes
      (fun r hr d => saysClusterId_combine (Reflector.clusterId_ne (hnode r hr).2) d)
      (fun r hr => (hnode r hr).1) hr
  | labelNodes rs =>
    obtain ⟨hnode, rfl⟩ := h
    exact fun r hr => nodeHas_combineNodes (fun _ _ d => saysLabel_combine d) hnode hr

/-- What is not taken back stays achieved. -/
theorem PeeringTask.Done.extends {t : PeeringTask} (h : t.Done ds) (hext : Extends ds ds')
    (hmesh : ∀ x, MeshIs x ds → MeshIs x ds') : t.Done ds' := by
  cases t with
  | bgpConfig v => exact hmesh _ h
  | peer p => exact hext.peer p h
  | updateNodes rs => exact fun r hr => hext.reflector _ (h r hr)
  | labelNodes rs => exact fun r hr => hext.label _ (h r hr)

theorem MeshIs.update {key : ResourceKey} {y : Option Value} {x : Value} (h : MeshIs x ds)
    (hkey : key.1 ≠ "BGPConfiguration") : MeshIs x (Function.update ds key y) := by
  obtain ⟨d, hd, hx⟩ := h
  have hne : bgpKey ≠ key := fun heq => hkey (heq ▸ rfl)
  exact ⟨d, (Function.update_of_ne hne ..).trans hd, hx⟩

theorem MeshIs.combineNodes {x : Value} (h : MeshIs x ds) :
    MeshIs x (combineNodes settings rs ds) := by
  obtain ⟨d, hd, hx⟩ := h
  exact ⟨d, (combineNodes_of_ne (show "BGPConfiguration" ≠ "Node" by decide)).trans hd, hx⟩

/-- The tasks before those on the route reflectors. -/
def firstTasks (run : PeeringRun) : List PeeringTask :=
  [.bgpConfig run.vars] ++ run.calico_rr.map (fun _ => .peer .peerToRrs) ++
    run.calico_rr.map (fun _ => .peer .rrMesh)

theorem firstTasks_cases {run : PeeringRun} {t : PeeringTask} (h : t ∈ firstTasks run) :
    t = .bgpConfig run.vars ∨ ∃ p, t = .peer p := by
  rw [firstTasks, List.mem_append, List.mem_append] at h
  rcases h with (h | h) | h
  · exact .inl (List.mem_singleton.1 h)
  · obtain ⟨_, -, rfl⟩ := List.mem_map.1 h
    exact .inr ⟨_, rfl⟩
  · obtain ⟨_, -, rfl⟩ := List.mem_map.1 h
    exact .inr ⟨_, rfl⟩

/-- With route reflectors both `BGPPeer` resources are made. -/
theorem peer_mem_firstTasks {run : PeeringRun} (h : run.calico_rr ≠ []) (p : ReflectorPeer) :
    .peer p ∈ firstTasks run := by
  obtain ⟨r, rest, heq⟩ := List.exists_cons_of_ne_nil h
  rw [firstTasks, heq]
  cases p <;> simp

/-- The tasks on the route reflectors come last, first the one that gives the cluster IDs. -/
theorem peeringTasks_split {run : PeeringRun} {done left : List PeeringTask} {t : PeeringTask}
    (h : peeringTasks run = done ++ t :: left) :
    t ∈ firstTasks run ∨ t = .updateNodes run.calico_rr ∧ done = firstTasks run ∨
      t = .labelNodes run.calico_rr ∧ done = firstTasks run ++ [.updateNodes run.calico_rr] := by
  have heq : firstTasks run ++ [.updateNodes run.calico_rr, .labelNodes run.calico_rr] =
    done ++ t :: left := h
  rcases List.append_eq_append_iff.1 heq with ⟨more, hdone, hrest⟩ | ⟨more, hfirst, hrest⟩
  · right
    match more, hrest with
    | [], hrest =>
      cases hrest
      exact .inl ⟨rfl, hdone.trans (List.append_nil _)⟩
    | [u], hrest =>
      cases hrest
      exact .inr ⟨rfl, hdone⟩
    | _ :: _ :: more, hrest =>
      have hlength := congrArg List.length hrest
      simp only [List.length_cons, List.length_append, List.length_nil] at hlength
      omega
  · cases more with
    | nil =>
      cases hrest
      exact .inr (.inl ⟨rfl, (hfirst.trans (List.append_nil _)).symm⟩)
    | cons u more =>
      cases hrest
      exact .inl (hfirst ▸ List.mem_append_right _ List.mem_cons_self)

/-! ## The invariant -/

/-- A node with the label has a cluster ID, and then both `BGPPeer` resources are there; no other
`BGPPeer` resource joins nodes. -/
structure PeeringInv (ds : Datastore) : Prop where
  reflector : ∀ name, Labelled ds name → IsReflector ds name
  peered : ∀ name, Labelled ds name → ∀ p, Peered p ds
  selector : ∀ name d x, ds ("BGPPeer", name) = some d → getPath peerSelectorPath d = .ok x →
    x = .str "has(i-am-a-route-reflector)"

theorem Unpeered.inv (h : Unpeered ds) : PeeringInv ds where
  reflector name hname := (h.label name hname).elim
  peered name hname := (h.label name hname).elim
  selector name d x hd := by
    rw [h.peer name] at hd
    cases hd

/-- A step that gives no label. -/
theorem PeeringInv.of_extends (h : PeeringInv ds) (hext : Extends ds ds')
    (hlabel : ∀ name, Labelled ds' name → Labelled ds name)
    (hselector : ∀ name d x, ds' ("BGPPeer", name) = some d →
      getPath peerSelectorPath d = .ok x → x = .str "has(i-am-a-route-reflector)") :
    PeeringInv ds' where
  reflector name hname := hext.reflector name (h.reflector name (hlabel name hname))
  peered name hname p := hext.peer p (h.peered name (hlabel name hname) p)
  selector := hselector

theorem NodeHas.of_update {key : ResourceKey} {x : Option Value} (hkey : key.1 ≠ "Node")
    (h : NodeHas P (Function.update ds key x) name) : NodeHas P ds name := by
  obtain ⟨d, hd, hP⟩ := h
  exact ⟨d, (Function.update_of_ne (nodeKey_ne hkey) ..).symm.trans hd, hP⟩

theorem combineNodes_of_not_mem (h : name ∉ rs.map Reflector.name) :
    combineNodes settings rs ds (nodeKey name) = ds (nodeKey name) := by
  induction rs generalizing ds with
  | nil => rfl
  | cons r rs ih =>
    rw [List.map_cons, List.mem_cons, not_or] at h
    have hne : nodeKey name ≠ nodeKey r.name := fun heq => h.1 (Prod.mk.inj heq).2
    exact (ih h.2).trans (Function.update_of_ne hne ..)

/-- A task on some of the route reflectors, which have a cluster ID after it, when both `BGPPeer`
resources are there. -/
theorem PeeringInv.combineNodes (h : PeeringInv ds)
    (hext : Extends ds (combineNodes settings rs ds))
    (hid : ∀ r ∈ rs, IsReflector (Kubespray.combineNodes settings rs ds) r.name)
    (hpeer : rs ≠ [] → ∀ p, Peered p ds) : PeeringInv (Kubespray.combineNodes settings rs ds) := by
  have hcases : ∀ name, Labelled (Kubespray.combineNodes settings rs ds) name →
      (∃ r ∈ rs, r.name = name) ∨ Labelled ds name := by
    rintro name ⟨d, hd, hlabel⟩
    by_cases hmem : name ∈ rs.map Reflector.name
    · exact .inl (List.mem_map.1 hmem)
    · exact .inr ⟨d, (combineNodes_of_not_mem hmem).symm.trans hd, hlabel⟩
  refine ⟨fun name hname => ?_, fun name hname p => ?_, fun name d x hd => ?_⟩
  · rcases hcases name hname with ⟨r, hr, rfl⟩ | hold
    · exact hid r hr
    · exact hext.reflector name (h.reflector name hold)
  · rcases hcases name hname with ⟨r, hr, rfl⟩ | hold
    · exact hext.peer p (hpeer (List.ne_nil_of_mem hr) p)
    · exact hext.peer p (h.peered name hold p)
  · rw [combineNodes_of_ne (show "BGPPeer" ≠ "Node" by decide)] at hd
    exact h.selector name d x hd

/-- The tasks before those on the route reflectors give no label. -/
theorem PeeringInv.first {run : PeeringRun} {t : PeeringTask} (h : PeeringInv ds)
    (ht : t ∈ firstTasks run) (hexec : t.exec ds ds') : PeeringInv ds' := by
  have hext := PeeringTask.exec_extends hexec
  rcases firstTasks_cases ht with rfl | ⟨p, rfl⟩
  · obtain ⟨read, rfl⟩ := hexec
    refine h.of_extends hext
      (fun name hname => hname.of_update (show "BGPConfiguration" ≠ "Node" by decide)) ?_
    intro name d x hd
    have hne : (bgpConfig run.vars).key ≠ ("BGPPeer", name) :=
      fun heq => absurd (Prod.mk.inj heq).1 (show "BGPConfiguration" ≠ "BGPPeer" by decide)
    rw [configure_of_ne hne] at hd
    exact h.selector name d x hd
  · cases hexec
    refine h.of_extends hext
      (fun name hname => hname.of_update (show "BGPPeer" ≠ "Node" by decide)) ?_
    intro name d x hd hx
    by_cases hkey : ("BGPPeer", name) = p.key
    · rw [hkey, Function.update_self] at hd
      cases hd
      have hsaid := p.saidBy_document.peerSelector
      cases hx.symm.trans hsaid
      cases p <;> rfl
    · rw [Function.update_of_ne hkey] at hd
      exact h.selector name d x hd hx

/-- The cluster IDs are given on some of the route reflectors. -/
theorem PeeringInv.updateNodes {run : PeeringRun} {done left : List PeeringTask}
    (h : PeeringInv ds) (hsplit : peeringTasks run = done ++ .updateNodes rs :: left)
    (hdone : ∀ t ∈ done, t.Done ds) {hosts : List Reflector} (hsub : hosts.Sublist rs)
    (hexec : PeeringTask.exec (.updateNodes hosts) ds ds') : PeeringInv ds' := by
  have hext := PeeringTask.exec_extends hexec
  have hid : ∀ r ∈ hosts, IsReflector ds' r.name := PeeringTask.done_of_exec hexec
  rcases peeringTasks_split hsplit with hfirst | ⟨heq, rfl⟩ | ⟨heq, -⟩
  · rcases firstTasks_cases hfirst with heq | ⟨p, heq⟩ <;> cases heq
  · cases heq
    obtain ⟨-, rfl⟩ := hexec
    refine h.combineNodes hext hid fun hne p => hdone (.peer p) (peer_mem_firstTasks ?_ p)
    exact fun hnil => hne (List.sublist_nil.1 (hnil ▸ hsub))
  · cases heq

/-- The labels are set on some of the route reflectors. -/
theorem PeeringInv.labelNodes {run : PeeringRun} {done left : List PeeringTask}
    (h : PeeringInv ds) (hsplit : peeringTasks run = done ++ .labelNodes rs :: left)
    (hdone : ∀ t ∈ done, t.Done ds) {hosts : List Reflector} (hsub : hosts.Sublist rs)
    (hexec : PeeringTask.exec (.labelNodes hosts) ds ds') : PeeringInv ds' := by
  have hext := PeeringTask.exec_extends hexec
  rcases peeringTasks_split hsplit with hfirst | ⟨heq, -⟩ | ⟨heq, rfl⟩
  · rcases firstTasks_cases hfirst with heq | ⟨p, heq⟩ <;> cases heq
  · cases heq
  · cases heq
    -- the cluster IDs were given by the task before
    have hid : ∀ r ∈ run.calico_rr, IsReflector ds r.name :=
      hdone (.updateNodes run.calico_rr) (List.mem_append_right _ List.mem_cons_self)
    obtain ⟨-, rfl⟩ := hexec
    refine h.combineNodes hext (fun r hr => hext.reflector _ (hid r (hsub.subset hr)))
      fun hne p => hdone (.peer p) (List.mem_append_left _ (peer_mem_firstTasks ?_ p))
    exact fun hnil => hne (List.sublist_nil.1 (hnil ▸ hsub))

/-- A task that succeeds keeps the invariant. -/
theorem PeeringInv.exec {run : PeeringRun} {done left : List PeeringTask} {t : PeeringTask}
    (h : PeeringInv ds) (hsplit : peeringTasks run = done ++ t :: left)
    (hdone : ∀ t ∈ done, t.Done ds) (hexec : t.exec ds ds') : PeeringInv ds' := by
  rcases peeringTasks_split hsplit with hfirst | ⟨rfl, -⟩ | ⟨rfl, -⟩
  · exact h.first hfirst hexec
  · exact h.updateNodes hsplit hdone (List.Sublist.refl _) hexec
  · exact h.labelNodes hsplit hdone (List.Sublist.refl _) hexec

/-- A task that fails keeps the invariant. -/
theorem PeeringInv.fail {run : PeeringRun} {done left : List PeeringTask} {t : PeeringTask}
    (h : PeeringInv ds) (hsplit : peeringTasks run = done ++ t :: left)
    (hdone : ∀ t ∈ done, t.Done ds) (hfail : t.fail ds ds') : PeeringInv ds' := by
  rcases PeeringTask.fail_cases hfail with rfl | hexec | ⟨rs, hosts, rfl, hsub, hexec⟩ |
    ⟨rs, hosts, rfl, hsub, hexec⟩
  · exact h
  · exact h.exec hsplit hdone hexec
  · exact h.updateNodes hsplit hdone hsub hexec
  · exact h.labelNodes hsplit hdone hsub hexec

/-- What is there after a write was there before, with the same fields. -/
theorem getPath_of_write {key key' : ResourceKey} {f : Value → Value} {d' : Value}
    (hf : ∀ p ∈ peeringPaths, ∀ d, getPath p (f d) = getPath p d)
    (hd' : Function.update ds key ((ds key).map f) key' = some d') :
    ∃ d, ds key' = some d ∧ ∀ p ∈ peeringPaths, getPath p d' = getPath p d := by
  by_cases hkey : key' = key
  · subst hkey
    rw [Function.update_self] at hd'
    obtain ⟨d, hd, rfl⟩ := Option.map_eq_some_iff.1 hd'
    exact ⟨d, hd, fun p hp => hf p hp d⟩
  · rw [Function.update_of_ne hkey] at hd'
    exact ⟨d', hd', fun _ _ => rfl⟩

theorem PeeringInv.change (h : PeeringInv ds) (hchange : PeeringChange ds ds') :
    PeeringInv ds' := by
  have hext := hchange.extends
  cases hchange with
  | node name d hnew hid hlabel =>
    refine h.of_extends hext ?_ fun peer x y hx => ?_
    · rintro a ⟨x, hx, hsays⟩
      by_cases hkey : nodeKey a = nodeKey name
      · rw [hkey, Function.update_self] at hx
        cases hx
        exact (hlabel hsays).elim
      · exact ⟨x, (Function.update_of_ne hkey ..).symm.trans hx, hsays⟩
    · have hkey : ("BGPPeer", peer) ≠ nodeKey name :=
        (nodeKey_ne (show "BGPPeer" ≠ "Node" by decide)).symm
      rw [Function.update_of_ne hkey] at hx
      exact h.selector peer x y hx
  | router name d _ hd =>
    refine h.of_extends hext
      (fun a ha => ha.of_update (show "BGPPeer" ≠ "Node" by decide)) fun peer x y hx hy => ?_
    by_cases hkey : ("BGPPeer", peer) = (("BGPPeer", name) : ResourceKey)
    · rw [hkey, Function.update_self] at hx
      cases hx
      exact (hd y hy).elim
    · rw [Function.update_of_ne hkey] at hx
      exact h.selector peer x y hx hy
  | write key f hf =>
    refine h.of_extends hext ?_ fun peer x y hx hy => ?_
    · rintro a ⟨x, hx, y, hy⟩
      obtain ⟨d, hd, hkept⟩ := getPath_of_write hf hx
      exact ⟨d, hd, y, (hkept labelPath (by simp [peeringPaths])).symm.trans hy⟩
    · obtain ⟨d, hd, hkept⟩ := getPath_of_write hf hx
      exact h.selector peer d y hd
        ((hkept peerSelectorPath (by simp [peeringPaths])).symm.trans hy)

/-- A node that is removed takes its label with it. -/
theorem PeeringInv.removed (h : PeeringInv ds) (hremoved : NodeRemoved ds ds') :
    PeeringInv ds' := by
  obtain ⟨name, rfl⟩ := hremoved
  have hlabel : ∀ a, Labelled (Function.update ds (nodeKey name) none) a →
      nodeKey a ≠ nodeKey name ∧ Labelled ds a := by
    rintro a ⟨x, hx, hsays⟩
    have hkey : nodeKey a ≠ nodeKey name := by
      intro heq
      rw [heq, Function.update_self] at hx
      cases hx
    exact ⟨hkey, x, (Function.update_of_ne hkey ..).symm.trans hx, hsays⟩
  refine ⟨fun a ha => ?_, fun a ha p => ?_, fun peer x y hx => ?_⟩
  · obtain ⟨hkey, hold⟩ := hlabel a ha
    obtain ⟨x, hx, hsays⟩ := h.reflector a hold
    exact ⟨x, (Function.update_of_ne hkey ..).trans hx, hsays⟩
  · obtain ⟨x, hx, hp⟩ := h.peered a (hlabel a ha).2 p
    have hkey : p.key ≠ nodeKey name := ReflectorPeer.key_ne (show "Node" ≠ "BGPPeer" by decide)
    exact ⟨x, (Function.update_of_ne hkey ..).trans hx, hp⟩
  · have hkey : ("BGPPeer", peer) ≠ nodeKey name :=
      (nodeKey_ne (show "BGPPeer" ≠ "Node" by decide)).symm
    rw [Function.update_of_ne hkey] at hx
    exact h.selector peer x y hx

end

end Kubespray
