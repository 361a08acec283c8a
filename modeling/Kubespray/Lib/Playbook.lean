import Kubespray.Lib.Transition

/-!
# Runs of a playbook beside other changes

A playbook changes a target by tasks, one after another, and stops at the first task that fails,
which may have had a part of its effect. Runs follow each other, with other parameters each time;
others change the target too, some of them only between runs.

What the tasks of a run have achieved stays while the run is in progress if the tasks after them and
the others keep it (`Reachable.achieved`). So an invariant of the target may rest, at each task, on
what the tasks before it have achieved (`Reachable.kept`).
-/

universe u v w

/-- The tasks of a playbook for each choice of the parameters `ρ`, and the changes of others. -/
structure Playbook (σ : Type u) (ρ : Type v) (τ : Type w) where
  tasks : ρ → List τ
  /-- The task succeeds. -/
  exec : τ → σ → σ → Prop
  /-- The task fails. -/
  fail : τ → σ → σ → Prop
  /-- Others change the target. -/
  other : σ → σ → Prop
  /-- Others change the target in a way that they do only between runs. -/
  between : σ → σ → Prop

namespace Playbook

variable {σ : Type u} {ρ : Type v} {τ : Type w}

/-- The target, and the run in progress with the tasks that are left of it. -/
structure State (σ : Type u) (ρ : Type v) (τ : Type w) where
  target : σ
  run : Option (ρ × List τ)

/-- The steps of the runs and of the others. -/
inductive Step (P : Playbook σ ρ τ) : State σ ρ τ → Unit → State σ ρ τ → Prop
  /-- A run begins. -/
  | start {x : σ} (r : ρ) : Step P ⟨x, none⟩ () ⟨x, some (r, P.tasks r)⟩
  /-- The next task succeeds. -/
  | task {x y : σ} {r : ρ} {t : τ} {ts : List τ} (h : P.exec t x y) :
    Step P ⟨x, some (r, t :: ts)⟩ () ⟨y, some (r, ts)⟩
  /-- The next task fails. -/
  | fail {x y : σ} {r : ρ} {t : τ} {ts : List τ} (h : P.fail t x y) :
    Step P ⟨x, some (r, t :: ts)⟩ () ⟨y, none⟩
  /-- The run ends, or is broken off. -/
  | stop {x : σ} {run : ρ × List τ} : Step P ⟨x, some run⟩ () ⟨x, none⟩
  /-- Others change the target. -/
  | other {x y : σ} {run : Option (ρ × List τ)} (h : P.other x y) : Step P ⟨x, run⟩ () ⟨y, run⟩
  /-- Others change the target between runs. -/
  | between {x y : σ} (h : P.between x y) : Step P ⟨x, none⟩ () ⟨y, none⟩

/-- Runs of the playbook from a target of this kind. -/
def runs (P : Playbook σ ρ τ) (first : σ → Prop) : TransitionSystem (State σ ρ τ) Unit where
  init s := first s.target ∧ s.run = none
  step := P.Step

section
variable {P : Playbook σ ρ τ} {first : σ → Prop} {s : State σ ρ τ} {Done : τ → σ → Prop}

/-- What the tasks achieve, and what keeps it. -/
structure Achieves (P : Playbook σ ρ τ) (Done : τ → σ → Prop) : Prop where
  exec : ∀ t x y, P.exec t x y → Done t y
  later : ∀ r, ∀ t ∈ P.tasks r, ∀ t' ∈ P.tasks r, ∀ x y, Done t x → P.exec t' x y → Done t y
  other : ∀ t x y, Done t x → P.other x y → Done t y

/-- The tasks of the run so far have achieved their effects. -/
def State.Achieved (P : Playbook σ ρ τ) (Done : τ → σ → Prop) (s : State σ ρ τ) : Prop :=
  ∀ r left, s.run = some (r, left) →
    ∃ done, P.tasks r = done ++ left ∧ ∀ t ∈ done, Done t s.target

/-- A step keeps what the run in progress has achieved. -/
theorem Step.achieved (hP : P.Achieves Done) {s s' : State σ ρ τ} (h : s.Achieved P Done)
    (hstep : P.Step s () s') : s'.Achieved P Done := by
  cases hstep with
  | start r =>
    rintro r' left heq
    cases heq
    exact ⟨[], rfl, fun t ht => nomatch ht⟩
  | @task x y r t ts hexec =>
    rintro r' left heq
    cases heq
    obtain ⟨done, hsplit, hdone⟩ := h r _ rfl
    refine ⟨done ++ [t], by rw [hsplit, List.append_assoc, List.singleton_append], fun t' ht' => ?_⟩
    rcases List.mem_append.1 ht' with ht' | ht'
    · have hmem : t' ∈ P.tasks r := hsplit ▸ List.mem_append_left _ ht'
      have hnext : t ∈ P.tasks r := hsplit ▸ List.mem_append_right _ List.mem_cons_self
      exact hP.later r t' hmem t hnext x y (hdone t' ht') hexec
    · rw [List.mem_singleton.1 ht']
      exact hP.exec t x y hexec
  | fail _ | stop | between _ =>
    rintro r' left heq
    cases heq
  | @other x y run hother =>
    rintro r' left heq
    obtain ⟨done, hsplit, hdone⟩ := h r' left heq
    exact ⟨done, hsplit, fun t ht => hP.other t x y (hdone t ht) hother⟩

/-- In every state the tasks of the run so far have achieved their effects. -/
theorem Reachable.achieved (hP : P.Achieves Done) (hs : (P.runs first).Reachable s) :
    s.Achieved P Done := by
  refine hs.invariant (fun s hinit r left heq => ?_)
    fun _ _ _ _ h hstep => Step.achieved hP h hstep
  rw [hinit.2] at heq
  cases heq

/-- At the end of a run all of its tasks have achieved their effects. -/
theorem Reachable.completed (hP : P.Achieves Done) (hs : (P.runs first).Reachable s) {r : ρ}
    (hrun : s.run = some (r, [])) : ∀ t ∈ P.tasks r, Done t s.target := by
  obtain ⟨done, hsplit, hdone⟩ := Reachable.achieved hP hs r [] hrun
  rw [hsplit, List.append_nil]
  exact hdone

/-- What every change of the target keeps; a task may rest on the effects of those before it. -/
structure Keeps (P : Playbook σ ρ τ) (Done : τ → σ → Prop) (Inv : σ → Prop) : Prop where
  exec : ∀ r done t left, P.tasks r = done ++ t :: left → ∀ x y, (∀ t ∈ done, Done t x) →
    Inv x → P.exec t x y → Inv y
  fail : ∀ r done t left, P.tasks r = done ++ t :: left → ∀ x y, (∀ t ∈ done, Done t x) →
    Inv x → P.fail t x y → Inv y
  other : ∀ x y, Inv x → P.other x y → Inv y
  between : ∀ x y, Inv x → P.between x y → Inv y

/-- An invariant of the target. -/
theorem Reachable.kept {Inv : σ → Prop} (hP : P.Achieves Done) (hInv : P.Keeps Done Inv)
    (hfirst : ∀ x, first x → Inv x) (hs : (P.runs first).Reachable s) : Inv s.target := by
  let Kept : State σ ρ τ → Prop := fun s => Inv s.target
  refine hs.invariant (show ∀ s, (P.runs first).init s → Kept s from
    fun s hinit => hfirst _ hinit.1) fun s _ s' hr h hstep => ?_
  have hachieved := Reachable.achieved hP hr
  cases hstep with
  | start _ | stop => exact h
  | task hexec =>
    obtain ⟨done, hsplit, hdone⟩ := hachieved _ _ rfl
    exact hInv.exec _ done _ _ hsplit _ _ hdone h hexec
  | fail hfail =>
    obtain ⟨done, hsplit, hdone⟩ := hachieved _ _ rfl
    exact hInv.fail _ done _ _ hsplit _ _ hdone h hfail
  | other hother => exact hInv.other _ _ h hother
  | between hbetween => exact hInv.between _ _ h hbetween

end

end Playbook
