import Kubespray.Lib.PyStr
import Kubespray.Lib.Transition
import Mathlib.Logic.Function.Basic

/-!
# Upgrades and the schedulability of nodes

An upgrade takes every node through `upgrade/pre-upgrade`, which cordons and drains it, the roles
that upgrade it and `upgrade/post-upgrade`, which uncordons it. Whether it does either is decided
anew in every run from the state of the node (`needs_cordoning`). A node that is unschedulable
already is to be left alone, but the template that asks for its flag is not quoted, so that the
answer is always empty: `kubectlNodeSchedulable_eq`. `upgrade_restores` says which checks of a node
lead to a completed run with the flag of before the first run; `upgrade_restores_fails` is a ready
node that was cordoned by hand.
-/

universe u

namespace Kubespray

/-! ## One node in a run -/

/-- Where a run is with a node. -/
inductive Stage where
  /-- Before `pre-upgrade`. -/
  | waiting
  /-- `needs_cordoning` is set. -/
  | checked (needsCordoning : Bool)
  /-- In the block `Node draining`, after the cordon. -/
  | draining
  /-- After the block, up to the uncordon of `post-upgrade`. -/
  | upgrading (needsCordoning : Bool)
  /-- The run has ended on the node, by a failure of its own or of another node. -/
  | stopped
  /-- The run has completed `post-upgrade`. -/
  | completed
  deriving DecidableEq, Repr

/-- A node of the cluster. -/
structure Node where
  /-- `spec.unschedulable`. -/
  unschedulable : Bool
  /-- The node is `Ready`. -/
  ready : Bool
  stage : Stage
  deriving DecidableEq, Repr

/-- The variables of `pre-upgrade` that decide what is done to a node. -/
structure UpgradeVars where
  upgradeNodeAlwaysCordon : Bool := false
  upgradeNodeUncordonAfterDrainFailure : Bool := true
  upgradeNodeFailIfDrainFails : Bool := true

/-- What `kubectl get node` prints for the words after the name of the node. It fails, and prints
nothing, unless the template is in the one word after `-o`. -/
def kubectlGetNode (node : Node) (words : List String) : String :=
  if words = ["-o", "jsonpath=\x7b .spec.unschedulable \x7d"] then
    if node.unschedulable then "true" else ""
  else ""

/-- `kubectl_node_schedulable.stdout`. The module `command` splits its text at the blanks; there are
no quotes around the template. -/
def kubectlNodeSchedulable (node : Node) : String :=
  kubectlGetNode node (Py.split ' ' "-o jsonpath=\x7b .spec.unschedulable \x7d")

/-- `Set if node needs cordoning`. -/
def needsCordoning (vars : UpgradeVars) (node : Node) : Bool :=
  node.ready && (kubectlNodeSchedulable node).isEmpty || vars.upgradeNodeAlwaysCordon

/-- What can happen to a node. -/
inductive NodeEvent where
  /-- The checks of `pre-upgrade`. -/
  | check
  /-- `Cordon node`. -/
  | cordon
  /-- The node is drained. -/
  | drain
  /-- The block `Node draining` is skipped. -/
  | skip
  /-- A task of the block fails; `rescue` uncordons the node and fails, if it is to. -/
  | rescue
  /-- `post-upgrade`, with its `Uncordon node`. -/
  | uncordon
  /-- The run ends on the node, without `rescue`. -/
  | stop
  /-- The node becomes ready or not ready. -/
  | ready (ready : Bool)
  deriving DecidableEq, Repr

/-- The node after an event, if the event can happen. -/
def nodeStep (vars : UpgradeVars) (node : Node) : NodeEvent → Option Node
  | .check =>
    if node.stage = .waiting then some { node with stage := .checked (needsCordoning vars node) }
    else none
  | .cordon =>
    if node.stage = .checked true then some { node with unschedulable := true, stage := .draining }
    else none
  | .drain => if node.stage = .draining then some { node with stage := .upgrading true } else none
  | .skip =>
    if node.stage = .checked false then some { node with stage := .upgrading false } else none
  | .rescue =>
    if node.stage = .checked true ∨ node.stage = .draining then
      some { node with
        unschedulable := if vars.upgradeNodeUncordonAfterDrainFailure then false
          else node.unschedulable
        stage := if vars.upgradeNodeFailIfDrainFails then .stopped else .upgrading true }
    else none
  | .uncordon =>
    match node.stage with
    | .upgrading true => some { node with unschedulable := false, stage := .completed }
    | .upgrading false => some { node with stage := .completed }
    | _ => none
  | .stop =>
    if node.stage = .completed then none else some { node with stage := .stopped }
  | .ready ready => some { node with ready }

/-! ## Runs on all nodes -/

/-- The nodes of a cluster. -/
abbrev Nodes (α : Type u) := α → Node

/-- What can happen to the cluster. -/
inductive UpgradeLabel (α : Type u) where
  /-- A run begins, after the one before has ended on all nodes. -/
  | run
  /-- Something happens to a node. -/
  | node (n : α) (event : NodeEvent)

/-- The run has not begun on the node or has ended there. -/
def Stage.Idle (stage : Stage) : Prop := stage = .waiting ∨ stage = .stopped ∨ stage = .completed

/-- One step of the cluster. -/
inductive UpgradeStep {α : Type u} [DecidableEq α] (vars : UpgradeVars) :
    Nodes α → UpgradeLabel α → Nodes α → Prop
  | run {s : Nodes α} (h : ∀ n, (s n).stage.Idle) :
    UpgradeStep vars s .run fun n => { s n with stage := .waiting }
  | node {s : Nodes α} {n : α} {event : NodeEvent} {node : Node}
    (h : nodeStep vars (s n) event = some node) :
    UpgradeStep vars s (.node n event) (Function.update s n node)

/-- Upgrade runs on nodes with the flags `unschedulable` before the first run. -/
def upgrades {α : Type u} [DecidableEq α] (vars : UpgradeVars) (unschedulable : α → Bool) :
    TransitionSystem (Nodes α) (UpgradeLabel α) where
  init s := ∀ n, (s n).stage = .waiting ∧ (s n).unschedulable = unschedulable n
  step := UpgradeStep vars

/-- The rest of a run from a state on. -/
def restOfRun {α : Type u} [DecidableEq α] (vars : UpgradeVars) (s : Nodes α) :
    TransitionSystem (Nodes α) (UpgradeLabel α) where
  init t := t = s
  step t a t' := (∃ n event, a = .node n event) ∧ UpgradeStep vars t a t'

/-- A node that needs cordoning is checked only if it was schedulable before the first run, another
one only with the flag that it had then. -/
def CheckedAsBefore {α : Type u} (vars : UpgradeVars) (flag : α → Bool) (s : Nodes α) :
    UpgradeLabel α → Prop
  | .node n .check =>
    if (s n).ready || vars.upgradeNodeAlwaysCordon then flag n = false
    else (s n).unschedulable = flag n
  | _ => True

/-! ## The flags -/

/-- A node after the checks of a run, which have found that it needs cordoning or not, and its flag
then. -/
def SinceCheck (needs checked : Bool) (node : Node) : Prop :=
  match node.stage with
  | .waiting => False
  | .checked b | .upgrading b => b = needs ∧ (needs = false → node.unschedulable = checked)
  | .draining => needs = true
  | .stopped => True
  | .completed => node.unschedulable = (!needs && checked)

/-- No node looks unschedulable to `pre-upgrade`. -/
theorem kubectlNodeSchedulable_eq (node : Node) : kubectlNodeSchedulable node = "" := by
  have hwords : Py.split ' ' "-o jsonpath=\x7b .spec.unschedulable \x7d" ≠
      ["-o", "jsonpath=\x7b .spec.unschedulable \x7d"] := by decide +kernel
  rw [kubectlNodeSchedulable, kubectlGetNode, if_neg hwords]

theorem needsCordoning_eq (vars : UpgradeVars) (node : Node) :
    needsCordoning vars node = (node.ready || vars.upgradeNodeAlwaysCordon) := by
  have hempty : "".isEmpty = true := rfl
  rw [needsCordoning, kubectlNodeSchedulable_eq, hempty, Bool.and_true]

/-- The condition on the checks, in terms of what a completed run leaves. -/
theorem checkedAsBefore_check {α : Type u} {vars : UpgradeVars} {flag : α → Bool} {s : Nodes α}
    {n : α} : CheckedAsBefore vars flag s (.node n .check) ↔
    (!needsCordoning vars (s n) && (s n).unschedulable) = flag n := by
  rw [CheckedAsBefore, needsCordoning_eq]
  cases (s n).ready || vars.upgradeNodeAlwaysCordon
  · rw [if_neg Bool.false_ne_true, Bool.not_false, Bool.true_and]
  · rw [if_pos rfl, Bool.not_true, Bool.false_and, eq_comm]

section
variable {α : Type u} [DecidableEq α] {vars : UpgradeVars} {needs checked : Bool}
  {node node' : Node} {event : NodeEvent} {flag : α → Bool} {s t : Nodes α} {n : α}

/-- What holds of every node, and is kept by a new run and by the events of the step, holds after
the step. -/
theorem UpgradeStep.forall_nodes {P : α → Node → Prop} {a : UpgradeLabel α}
    (hstep : UpgradeStep vars s a t) (h : ∀ n, P n (s n))
    (hrun : ∀ n, a = .run → P n (s n) → (s n).stage.Idle → P n { s n with stage := .waiting })
    (hevent : ∀ n event node, a = .node n event → P n (s n) →
      nodeStep vars (s n) event = some node → P n node) (n : α) : P n (t n) := by
  cases hstep with
  | run hidle => exact hrun n rfl (h n) (hidle n)
  | @node m event node hnode =>
    by_cases hn : n = m
    · subst hn
      rw [Function.update_self]
      exact hevent n event node rfl (h n) hnode
    · rw [Function.update_of_ne hn]
      exact h n

/-- When an event can happen, and what it does. -/
theorem nodeStep_eq_some (h : nodeStep vars node event = some node') :
    match event with
    | .check =>
      node.stage = .waiting ∧ node' = { node with stage := .checked (needsCordoning vars node) }
    | .cordon =>
      node.stage = .checked true ∧ node' = { node with unschedulable := true, stage := .draining }
    | .drain => node.stage = .draining ∧ node' = { node with stage := .upgrading true }
    | .skip => node.stage = .checked false ∧ node' = { node with stage := .upgrading false }
    | .rescue =>
      (node.stage = .checked true ∨ node.stage = .draining) ∧
        node' = { node with
          unschedulable := if vars.upgradeNodeUncordonAfterDrainFailure then false
            else node.unschedulable
          stage := if vars.upgradeNodeFailIfDrainFails then .stopped else .upgrading true }
    | .uncordon =>
      node.stage = .upgrading true ∧
        node' = { node with unschedulable := false, stage := .completed } ∨
        node.stage = .upgrading false ∧ node' = { node with stage := .completed }
    | .stop => node.stage ≠ .completed ∧ node' = { node with stage := .stopped }
    | .ready ready => node' = { node with ready } := by
  cases event with
  | check | cordon | drain | skip | rescue =>
    simp only [nodeStep, Option.ite_none_right_eq_some, Option.some.injEq] at h
    exact ⟨h.1, h.2.symm⟩
  | uncordon =>
    simp only [nodeStep] at h
    split at h
    case h_1 hstage => exact .inl ⟨hstage, (Option.some.inj h).symm⟩
    case h_2 hstage => exact .inr ⟨hstage, (Option.some.inj h).symm⟩
    case h_3 => cases h
  | stop =>
    simp only [nodeStep, Option.ite_none_left_eq_some, Option.some.injEq] at h
    exact ⟨h.1, h.2.symm⟩
  | ready b => exact (Option.some.inj h).symm

/-- A node that waits is checked, or the run ends on it, or it goes on waiting. -/
theorem nodeStep_of_waiting (hwaiting : node.stage = .waiting)
    (hstep : nodeStep vars node event = some node') :
    event = .check ∨ node'.stage = .stopped ∨
      node'.stage = .waiting ∧ node'.unschedulable = node.unschedulable := by
  have hcases := nodeStep_eq_some hstep
  cases event with
  | check => exact .inl rfl
  | stop =>
    obtain ⟨-, rfl⟩ := hcases
    exact .inr (.inl rfl)
  | ready b =>
    cases hcases
    exact .inr (.inr ⟨hwaiting, rfl⟩)
  | cordon | drain | skip | rescue | uncordon => simp [hwaiting] at hcases

/-- The checks find whether the node needs cordoning, and change nothing. -/
theorem SinceCheck.check (hstep : nodeStep vars node .check = some node') :
    SinceCheck (needsCordoning vars node) node.unschedulable node' := by
  obtain ⟨-, rfl⟩ := nodeStep_eq_some hstep
  exact ⟨rfl, fun _ => rfl⟩

theorem SinceCheck.of_stopped (hstopped : node.stage = .stopped) :
    SinceCheck needs checked node := by
  rw [SinceCheck, hstopped]
  trivial

/-- A node that needs cordoning is completed schedulable, whatever its flag was; another one keeps
its flag. -/
theorem SinceCheck.step (h : SinceCheck needs checked node)
    (hstep : nodeStep vars node event = some node') : SinceCheck needs checked node' := by
  obtain ⟨unschedulable, ready, stage⟩ := node
  have hcases := nodeStep_eq_some hstep
  cases event with
  | check =>
    obtain ⟨rfl, -⟩ := hcases
    exact h.elim
  | cordon =>
    obtain ⟨rfl, rfl⟩ := hcases
    exact h.1.symm
  | drain =>
    obtain ⟨rfl, rfl⟩ := hcases
    exact ⟨Eq.symm h, fun hneeds => by cases hneeds.symm.trans h⟩
  | skip =>
    obtain ⟨rfl, rfl⟩ := hcases
    exact h
  | rescue =>
    obtain ⟨hstage, rfl⟩ := hcases
    have hneeds : needs = true := by
      rcases hstage with rfl | rfl
      · exact h.1.symm
      · exact h
    -- the run ends here or goes on with a node that needs cordoning
    subst hneeds
    cases vars.upgradeNodeFailIfDrainFails
    · exact ⟨rfl, nofun⟩
    · trivial
  | uncordon =>
    obtain ⟨rfl, rfl⟩ | ⟨rfl, rfl⟩ := hcases
    · obtain ⟨rfl, -⟩ := h
      rfl
    · obtain ⟨rfl, hflag⟩ := h
      exact hflag rfl
  | stop =>
    obtain ⟨-, rfl⟩ := hcases
    trivial
  | ready b =>
    cases hcases
    exact h

/-- In the rest of a run the node is one since these checks. -/
theorem sinceCheck_of_restOfRun (h : SinceCheck needs checked (s n))
    (ht : (restOfRun vars s).Reachable t) : SinceCheck needs checked (t n) := by
  refine @TransitionSystem.Reachable.invariant _ _ _ (fun t => ∀ m, m = n →
    SinceCheck needs checked (t m)) _ ht (fun t ht m hm => ?_) (fun t a t' _ hn hstep => ?_) n rfl
  · have heq : t = s := ht
    rw [heq, hm]
    exact h
  · obtain ⟨⟨m, event, rfl⟩, hstep⟩ := hstep
    exact UpgradeStep.forall_nodes (P := fun m node => m = n → SinceCheck needs checked node) hstep
      hn (fun _ hrun => by cases hrun) fun m event node _ hm hnode heq => (hm heq).step hnode

/-- A node that no run has checked, or whose checks in this run lead to its flag from before the
first run. -/
def FlagKept (before : Bool) (node : Node) : Prop :=
  node.stage = .waiting ∨
    ∃ needs checked, SinceCheck needs checked node ∧ (!needs && checked) = before

/-- In every run with such checks only the flags are kept. -/
theorem flagKept_of_reachable
    (hs : ((upgrades vars flag).guard (CheckedAsBefore vars flag)).Reachable s) :
    ∀ n, FlagKept (flag n) (s n) := by
  refine @TransitionSystem.Reachable.invariant _ _ _ (fun s => ∀ n, FlagKept (flag n) (s n)) _ hs
    (fun s h n => .inl (h n).1) fun s a t _ h hstep => ?_
  obtain ⟨hguard, hstep⟩ := hstep
  refine hstep.forall_nodes h (fun n _ _ _ => .inl rfl) fun n event node ha hn hnode => ?_
  rcases hn with hwaiting | ⟨needs, checked, hsince, hflag⟩
  · rcases nodeStep_of_waiting hwaiting hnode with rfl | hstopped | ⟨hwaiting', -⟩
    · subst ha
      exact .inr ⟨_, _, SinceCheck.check hnode, checkedAsBefore_check.1 hguard⟩
    · exact .inr ⟨false, flag n, SinceCheck.of_stopped hstopped, rfl⟩
    · exact .inl hwaiting'
  · exact .inr ⟨needs, checked, hsince.step hnode, hflag⟩

end

/-- If in all runs the checks find only nodes that need cordoning and were schedulable before the
first run, and others with the flag that they had then, every node that a run has completed has the
flag from before the first run. A single run completes a node with this flag exactly if its checks
find the node so. -/
theorem upgrade_restores {α : Type u} [DecidableEq α] (vars : UpgradeVars) (flag : α → Bool) :
    (∀ s, ((upgrades vars flag).guard (CheckedAsBefore vars flag)).Reachable s →
      ∀ n, (s n).stage = .completed → (s n).unschedulable = flag n) ∧
    ∀ s n t, (upgrades vars flag).step s (.node n .check) t →
      ∀ u, (restOfRun vars t).Reachable u → (u n).stage = .completed →
        ((u n).unschedulable = flag n ↔ CheckedAsBefore vars flag s (.node n .check)) := by
  constructor
  · intro s hs n hcompleted
    rcases flagKept_of_reachable hs n with hwaiting | ⟨needs, checked, hsince, hflag⟩
    · rw [hcompleted] at hwaiting
      cases hwaiting
    · rw [SinceCheck, hcompleted] at hsince
      exact hsince.trans hflag
  · intro s n t hstep u hu hcompleted
    have hchecked : SinceCheck (needsCordoning vars (s n)) (s n).unschedulable (t n) := by
      cases hstep with
      | node hnode =>
        rw [Function.update_self]
        exact SinceCheck.check hnode
    have hsince := sinceCheck_of_restOfRun hchecked hu
    rw [SinceCheck, hcompleted] at hsince
    rw [hsince, checkedAsBefore_check]

/-! ## Runs on one node -/

/-- The events of one node can happen one after another, if each of them is a step. -/
theorem reachable_of_events {α : Type u} [DecidableEq α]
    (S : TransitionSystem (Nodes α) (UpgradeLabel α)) (n : α) (f : Node → NodeEvent → Option Node)
    (hS : ∀ s event node, f (s n) event = some node →
      S.step s (.node n event) (Function.update s n node)) (events : List NodeEvent) {s : Nodes α}
    {node : Node} (hs : S.Reachable s) (hevents : events.foldlM f (s n) = some node) :
    S.Reachable (Function.update s n node) := by
  induction events generalizing s with
  | nil =>
    cases hevents
    rwa [Function.update_eq_self]
  | cons event events ih =>
    rw [List.foldlM_cons] at hevents
    obtain ⟨next, hnext, hrest⟩ := Option.bind_eq_some_iff.1 hevents
    have hmore : events.foldlM f (Function.update s n next n) = some node := by
      rwa [Function.update_self]
    have hlast := ih (hs.step (hS s event next hnext)) hmore
    rwa [Function.update_idem] at hlast

/-- Nodes that are ready, before the first run. -/
def readyNodes (unschedulable : Bool) : Nodes String := fun _ => ⟨unschedulable, true, .waiting⟩

/-- A run that fails after it has drained `node1`, and one that completes. -/
theorem upgrade_restores_two_runs :
    ∃ s, ((upgrades {} fun _ : String => false).guard
        (CheckedAsBefore {} fun _ => false)).Reachable s ∧
      (s "node1").stage = .completed ∧ (s "node1").unschedulable = false ∧
      CheckedAsBefore {} (fun _ => false) (readyNodes false) (.node "node1" .check) := by
  let S := (upgrades {} fun _ : String => false).guard (CheckedAsBefore {} fun _ => false)
  -- the events of a node that is ready throughout
  let f : Node → NodeEvent → Option Node := fun node event =>
    if node.ready then nodeStep {} node event else none
  have hS : ∀ s event node, f (s "node1") event = some node →
      S.step s (.node "node1" event) (Function.update s "node1" node) := by
    intro s event node hnode
    simp only [f, Option.ite_none_right_eq_some] at hnode
    refine ⟨?_, UpgradeStep.node hnode.2⟩
    cases event <;> simp [CheckedAsBefore, hnode.1]
  have hfailed : S.Reachable (Function.update (readyNodes false) "node1" ⟨true, true, .stopped⟩) :=
    reachable_of_events S "node1" f hS [.check, .cordon, .drain, .stop]
      (.init fun _ => ⟨rfl, rfl⟩) rfl
  have hidle : ∀ n, (Function.update (readyNodes false) "node1"
      ⟨true, true, .stopped⟩ n).stage.Idle := by
    intro n
    by_cases hn : n = "node1"
    · subst hn
      rw [Function.update_self]
      exact .inr (.inl rfl)
    · rw [Function.update_of_ne hn]
      exact .inl rfl
  have hs : S.Reachable (Function.update _ "node1" ⟨false, true, .completed⟩) :=
    reachable_of_events S "node1" f hS [.check, .cordon, .drain, .uncordon]
      (hfailed.step (a := .run) ⟨trivial, UpgradeStep.run hidle⟩) rfl
  -- the run that has completed a node with its flag
  have hcheck : (upgrades {} fun _ : String => false).step (readyNodes false)
      (.node "node1" .check) (Function.update (readyNodes false) "node1"
        ⟨false, true, .checked true⟩) := UpgradeStep.node rfl
  have hrest := reachable_of_events (restOfRun {} _) "node1" (nodeStep {})
    (fun _ _ _ hnode => ⟨⟨_, _, rfl⟩, UpgradeStep.node hnode⟩) [.cordon, .drain, .uncordon]
    (.init (rfl : _ = Function.update (readyNodes false) "node1" ⟨false, true, .checked true⟩)) rfl
  exact ⟨_, hs, by simp, (upgrade_restores {} _).1 _ hs "node1" (by simp),
    ((upgrade_restores {} _).2 _ _ _ hcheck _ hrest (by rw [Function.update_self])).1
      (by rw [Function.update_self])⟩

/-- A run on a ready node that was cordoned by hand. -/
theorem upgrade_restores_fails :
    ¬ ∀ s, (upgrades {} fun _ : String => true).Reachable s → ∀ n, (s n).stage = .completed →
      (s n).unschedulable = true := by
  intro hall
  have hs : (upgrades {} fun _ : String => true).Reachable
      (Function.update (readyNodes true) "node1" ⟨false, true, .completed⟩) :=
    reachable_of_events _ "node1" (nodeStep {}) (fun _ _ _ hnode => UpgradeStep.node hnode)
      [.check, .cordon, .drain, .uncordon] (.init fun _ => ⟨rfl, rfl⟩) rfl
  have hflag := hall _ hs "node1" (by rw [Function.update_self])
  rw [Function.update_self] at hflag
  cases hflag

end Kubespray
