import Kubespray.Lib.Combine
import Kubespray.Lib.Optimistic

/-!
# The cluster ID of a route reflector

`roles/network_plugin/calico/rr/tasks/update-node.yml` sets the cluster ID in the node object of a
route reflector: it reads the object, combines the cluster ID into it and replaces the object, and
after a failure it includes itself again, up to ten times. The agents of Calico write to the object
too. The datastore takes a replacement only under the `resourceVersion` that the object has; the
tasks keep this field as they have read it (`setClusterId`), so they are a client of
`Kubespray.Lib.Optimistic`.
-/

open Py (Value)
open Py.Value

namespace Kubespray

/-- A node object, as `calicoctl.sh get node -ojson` prints it. -/
structure NodeObject where
  node : Value
  resourceVersion : String
  getPath_node : getPath ["metadata", "resourceVersion"] node = .ok (.str resourceVersion)

/-- The field that the tasks set. -/
def clusterIdPath : List String := ["spec", "bgp", "routeReflectorClusterID"]

/-- What the tasks combine with the node object. -/
def clusterIdSettings (clusterId : String) : Value :=
  .dict [("spec", .dict [("bgp", .dict [("routeReflectorClusterID", .str clusterId)])])]

/-- The resource version that the datastore gives to an object. -/
def versionSettings (v : String) : Value :=
  .dict [("metadata", .dict [("resourceVersion", .str v)])]

section
variable {clusterId v : String}

/-- An object with one key. -/
theorem keyed_single {k : String} {x : Value} (h : Keyed x) : Keyed (.dict [(k, x)]) := by
  refine .dict (List.nodup_singleton k) fun p hp => ?_
  rw [List.mem_singleton] at hp
  subst hp
  exact h

theorem keyed_str (s : String) : Keyed (.str s) := .scalar fun _ h => nomatch h

theorem keyed_clusterIdSettings (clusterId : String) : Keyed (clusterIdSettings clusterId) :=
  keyed_single (keyed_single (keyed_single (keyed_str _)))

theorem keyed_versionSettings (v : String) : Keyed (versionSettings v) :=
  keyed_single (keyed_single (keyed_str _))

theorem not_mentions_clusterIdSettings :
    ¬ Mentions (clusterIdSettings clusterId) ["metadata", "resourceVersion"] := by
  rintro ⟨_, hlookup, -⟩
  cases hlookup

theorem not_mentions_versionSettings : ¬ Mentions (versionSettings v) clusterIdPath := by
  rintro ⟨_, hlookup, -⟩
  cases hlookup

end

/-- The task `Set route reflector cluster ID`. -/
def setClusterId (clusterId : String) (d : NodeObject) : NodeObject where
  node := combine d.node (clusterIdSettings clusterId)
  resourceVersion := d.resourceVersion
  getPath_node := getPath_combine_of_not_mentions (keyed_clusterIdSettings _)
    not_mentions_clusterIdSettings d.getPath_node

/-- Node objects under their resource versions. -/
def nodeVersions : Optimistic.Versioned NodeObject String where
  version := NodeObject.resourceVersion
  stamp v d :=
    { node := combine d.node (versionSettings v)
      resourceVersion := v
      getPath_node := getPath_combine_of_gives (v := .str v) (keyed_versionSettings v) rfl
        (fun _ h => nomatch h) d.node }
  version_stamp _ _ := rfl

/-- The tasks of `update-node.yml`, beside the agents that write to the same object. `retry_count`
is 0 in the first attempt, and the tasks give up when it is 10. -/
def updateNode (clusterId : String) (first : NodeObject) :
    TransitionSystem (Optimistic.State nodeVersions) Unit :=
  Optimistic.updating nodeVersions (setClusterId clusterId) 10 first

/-- The node object says the cluster ID. -/
def HasClusterId (clusterId : String) (d : NodeObject) : Prop :=
  getPath clusterIdPath d.node = .ok (.str clusterId)

variable {clusterId : String} {first : NodeObject} {s : Optimistic.State nodeVersions}

theorem hasClusterId_setClusterId (clusterId : String) (d : NodeObject) :
    HasClusterId clusterId (setClusterId clusterId d) :=
  getPath_combine_of_gives (v := .str clusterId) (keyed_clusterIdSettings clusterId) rfl
    (fun _ h => nomatch h) d.node

/-- A new resource version keeps the cluster ID. -/
theorem HasClusterId.stamp {d : NodeObject} (h : HasClusterId clusterId d) (v : String) :
    HasClusterId clusterId (nodeVersions.stamp v d) :=
  getPath_combine_of_not_mentions (keyed_versionSettings v) not_mentions_versionSettings h

/-- What the tasks may say of the node object in a state of theirs. -/
structure NodeUpdated (clusterId : String) (first : NodeObject)
    (s : Optimistic.State nodeVersions) : Prop where
  /-- The object is the first one after the updates of all writers, one after another. -/
  nothing_lost : s.store.document =
    Optimistic.replay nodeVersions (setClusterId clusterId) first s.updates
  /-- When the tasks are done they have replaced the object. -/
  replaced : s.client = .completed → .patch ∈ s.updates.map Prod.fst
  /-- From a replacement on the object has the cluster ID, if the writes after it keep it. -/
  kept : ∀ before after, s.updates.map Prod.fst = before ++ .patch :: after →
    (∀ f, .other f ∈ after → ∀ d, HasClusterId clusterId d → HasClusterId clusterId (f d)) →
    HasClusterId clusterId s.store.document
  /-- The object is read in at most eleven attempts. -/
  attempts : s.reads ≤ 11
  /-- The tasks fail only after more than ten writes of others or failures of the datastore. -/
  failed : s.client = .failed → 10 < s.disturbances

/-- In every interleaving with other writers no update of the node object is lost, the tasks leave
the cluster ID in it when they are done, if no one takes it out again, and they are done unless
disturbed more than ten times. -/
theorem route_reflector_update (hs : (updateNode clusterId first).Reachable s) :
    NodeUpdated clusterId first s := by
  have hversion (d : NodeObject) :
      nodeVersions.version (setClusterId clusterId d) = nodeVersions.version d := rfl
  have hreplay := Optimistic.Reachable.replay hversion hs
  have hdisturbed := Optimistic.Reachable.disturbed hversion hs
  refine ⟨hreplay, Optimistic.Reachable.patched hs, fun before after hupdates hother => ?_, ?_,
    hdisturbed.failed⟩
  · rw [hreplay]
    exact Optimistic.replay_of_patched (P := HasClusterId clusterId)
      (hasClusterId_setClusterId clusterId) (fun v d h => h.stamp v) hupdates hother
  · have hreads := hdisturbed.reads.1
    have hretried := hdisturbed.retried
    omega

/-- A node object without settings. -/
def plainNode : NodeObject where
  node := versionSettings "7"
  resourceVersion := "7"
  getPath_node := rfl

/-- The tasks before their first attempt. -/
def beforeUpdate : Optimistic.State nodeVersions where
  store := ⟨plainNode, [], List.nodup_singleton _⟩
  client := .ready
  retried := 0
  updates := []
  reads := 0
  disturbances := 0

/-- The tasks read the object, another writer writes to it, and the replacement is refused; the second
attempt succeeds. -/
theorem route_reflector_update_conflict :
    ∃ s, (updateNode "1.0.0.1" plainNode).Reachable s ∧ s.retried = 1 ∧ s.client = .completed ∧
      HasClusterId "1.0.0.1" s.store.document := by
  have hinit : (updateNode "1.0.0.1" plainNode).Reachable beforeUpdate :=
    .init ⟨rfl, rfl, rfl, rfl, rfl, rfl, rfl⟩
  have hread := hinit.step (a := ()) (.read rfl)
  have hother := hread.step (a := ()) (.other (fun d => d) "8" (by decide))
  have hconflict := hother.step (a := ()) (.conflict rfl (by decide))
  have hagain := hconflict.step (a := ()) (.read rfl)
  have hreplaced := hagain.step (a := ()) (.replace rfl rfl "9" (by decide))
  exact ⟨_, hreplaced, rfl, rfl,
    (route_reflector_update hreplaced).kept [.other fun d => d] [] rfl nofun⟩

end Kubespray
