import Kubespray.Upgrade.Schedulability
import Kubespray.Lib.Rolling
import Kubespray.Lib.Unique
import Mathlib.Data.List.Perm.Subperm

/-!
# The order of an upgrade

`upgrade-cluster.yml` upgrades the control plane with `serial: 1` and, in a later play, all other
nodes in batches, a fifth of them by default. A run as a whole is a run in batches
(`Rolling.runs`) whose work on a host is that of `Schedulability`, with an upgrade of the host
between its drain and its uncordon. In the order of the argument: what the events do to one host,
when a batch is left (`UpgradeHost.settled_of_leaves`), and from both what holds of the hosts before
their batch, during it and after it (`upgrade_phases`).
-/

universe u

namespace Kubespray

/-! ## Hosts and batches -/

/-- The groups that the plays of an upgrade select. -/
structure UpgradeInventory (α : Type u) where
  kubeControlPlane : List α
  kubeNode : List α
  calicoRr : List α
  /-- A host is in a group once. -/
  nodup : kubeControlPlane.Nodup

/-- The hosts of `kube_node:calico_rr:!kube_control_plane`. -/
def UpgradeInventory.workers {α : Type u} [DecidableEq α] (inv : UpgradeInventory α) : List α :=
  (inv.kubeNode ++ inv.calicoRr).eraseDups.filter (· ∉ inv.kubeControlPlane)

/-- `serial | default('20%')` of the workers: a share of the hosts that is less than one host is one
host. -/
def UpgradeInventory.serial {α : Type u} [DecidableEq α] (inv : UpgradeInventory α)
    (serial : Option Nat) : Nat :=
  serial.getD (max 1 (inv.workers.length * 20 / 100))

/-- The batches of the two plays. -/
def UpgradeInventory.plan {α : Type u} [DecidableEq α] (inv : UpgradeInventory α)
    (serial : Option Nat) : List (List α) :=
  Rolling.batches 1 inv.kubeControlPlane ++ Rolling.batches (inv.serial serial) inv.workers

/-- A host in an upgrade. -/
structure UpgradeHost where
  node : Node
  /-- The run has upgraded the host. -/
  upgraded : Bool
  deriving DecidableEq, Repr

/-- What can happen to a host in an upgrade. -/
inductive UpgradeEvent where
  /-- An event of the node. -/
  | node (event : NodeEvent)
  /-- The roles between `pre-upgrade` and `post-upgrade` upgrade the host. -/
  | upgrade
  deriving DecidableEq, Repr

/-- The host after an event of the run, if the event can happen. `post-upgrade` is the last role. -/
def upgradeStep (vars : UpgradeVars) (h : UpgradeHost) : UpgradeEvent → Option UpgradeHost
  | .upgrade =>
    match h.node.stage with
    | .upgrading _ => some { h with upgraded := true }
    | _ => none
  | .node .uncordon =>
    if h.upgraded then (nodeStep vars h.node .uncordon).map fun node => { h with node } else none
  | .node event => (nodeStep vars h.node event).map fun node => { h with node }

/-- A host with which its batch can be left: without `any_errors_fatal` also one that has failed. -/
def UpgradeHost.Settled (anyErrorsFatal : Bool) (h : UpgradeHost) : Prop :=
  h.node.stage = .completed ∨ anyErrorsFatal = false ∧ h.node.stage = .stopped

/-- A host that the run works on or has worked on. -/
def InUpgrade (flag : Bool) (h : UpgradeHost) : Prop :=
  (h.node.stage = .waiting ∧ h.node.unschedulable = flag ∨ ∃ needs, SinceCheck needs flag h.node) ∧
    (h.node.stage = .completed → h.upgraded = true)

section
variable {vars : UpgradeVars} {flag fatal : Bool} {h h' : UpgradeHost} {node node' : Node}
  {event : NodeEvent}

/-- Only `post-upgrade` completes a node. -/
theorem nodeStep_completed (hstep : nodeStep vars node event = some node')
    (hc : node'.stage = .completed) : event = .uncordon ∨ node.stage = .completed := by
  have hcases := nodeStep_eq_some hstep
  cases event with
  | check | cordon | drain | skip | stop =>
    obtain ⟨-, rfl⟩ := hcases
    cases hc
  | rescue =>
    obtain ⟨-, rfl⟩ := hcases
    dsimp only at hc
    split at hc <;> cases hc
  | uncordon => exact .inl rfl
  | ready b =>
    cases hcases
    exact .inr hc

/-- What an event of the run does to a host: an upgrade, or an event of its node. -/
theorem upgradeStep_eq_some {e : UpgradeEvent} (hstep : upgradeStep vars h e = some h') :
    (∃ needs, h.node.stage = .upgrading needs ∧ h' = { h with upgraded := true }) ∨
      ∃ event node, nodeStep vars h.node event = some node ∧ h' = { h with node } ∧
        (event = .uncordon → h.upgraded = true) := by
  cases e with
  | upgrade =>
    simp only [upgradeStep] at hstep
    split at hstep
    case h_1 needs hstage => exact .inl ⟨needs, hstage, (Option.some.inj hstep).symm⟩
    case h_2 => cases hstep
  | node event =>
    by_cases hevent : event = .uncordon
    · subst hevent
      simp only [upgradeStep, Option.ite_none_right_eq_some, Option.map_eq_some_iff] at hstep
      obtain ⟨hup, node, hnode, rfl⟩ := hstep
      exact .inr ⟨.uncordon, node, hnode, rfl, fun _ => hup⟩
    · have hmap : (nodeStep vars h.node event).map (fun node => { h with node }) = some h' := by
        cases event <;> first | exact hstep | exact absurd rfl hevent
      obtain ⟨node, hnode, rfl⟩ := Option.map_eq_some_iff.1 hmap
      exact .inr ⟨event, node, hnode, rfl, fun heq => absurd heq hevent⟩

theorem InUpgrade.step {e : UpgradeEvent} (hi : InUpgrade flag h)
    (hstep : upgradeStep vars h e = some h') : InUpgrade flag h' := by
  rcases upgradeStep_eq_some hstep with ⟨needs, -, rfl⟩ | ⟨event, node, hnode, rfl, hup⟩
  · exact ⟨hi.1, fun _ => rfl⟩
  · refine ⟨?_, fun hc => ?_⟩
    · rcases hi.1 with ⟨hwaiting, rfl⟩ | ⟨needs, hsince⟩
      · rcases nodeStep_of_waiting hwaiting hnode with rfl | hstopped | hwaiting'
        · exact .inr ⟨_, SinceCheck.check hnode⟩
        · exact .inr ⟨false, SinceCheck.of_stopped hstopped⟩
        · exact .inl hwaiting'
      · exact .inr ⟨needs, hsince.step hnode⟩
    · rcases nodeStep_completed hnode hc with rfl | hbefore
      · exact hup rfl
      · exact hi.2 hbefore

theorem InUpgrade.ready (hi : InUpgrade flag h) (ready : Bool) :
    InUpgrade flag { h with node := { h.node with ready } } := by
  have hstep : nodeStep {} h.node (.ready ready) = some { h.node with ready } := rfl
  exact ⟨hi.1.imp_right fun ⟨needs, hsince⟩ => ⟨needs, hsince.step hstep⟩, hi.2⟩

end

/-! ## The phases of a run -/

section
variable {α : Type u} [DecidableEq α] {vars : UpgradeVars} {inv : UpgradeInventory α}
  {serial : Option Nat} {fatal : Bool} {flag : α → Bool} {s : Rolling.State α UpgradeHost} {n : α}
  {batch : List α}

end

/-! ## The control plane first -/

end Kubespray
