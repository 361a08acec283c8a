import Kubespray.Lib.Transition
import Mathlib.Logic.Function.Basic
import Mathlib.Data.List.Nodup

/-!
# Work in batches

A list of hosts is cut into batches (`batches`), and the batches are worked on one after another: a
host changes by the work while its batch is the current one, and by its environment at any time.
`Rolling.phases` is the rule for such runs. From what the work, the environment and the end of a
batch do to one host it follows what holds of the hosts of the batches that are done, of the current
batch and of all others.
-/

universe u v w

namespace Rolling

/-! ## Batches -/

/-- The hosts in batches of this size, all in one batch if it is 0. -/
def batches {α : Type u} (size : Nat) : List α → List (List α)
  | [] => []
  | x :: xs =>
    if size = 0 then [x :: xs] else (x :: xs.take (size - 1)) :: batches size (xs.drop (size - 1))
termination_by l => l.length

section
variable {α : Type u} {size : Nat} {l b : List α}

end

/-! ## Runs -/

/-- Where a run is. -/
structure State (α : Type u) (σ : Type v) where
  /-- The batches that the run is done with. -/
  done : List (List α)
  /-- The batch that is worked on. -/
  current : List α
  /-- The batches to come. -/
  ahead : List (List α)
  /-- The states of the hosts. -/
  host : α → σ

/-- What can happen in a run. -/
structure Rules (σ : Type v) (ε : Type w) where
  /-- The work on a host of the current batch. -/
  work : σ → ε → σ → Prop
  /-- What its environment does to a host. -/
  environment : σ → ε → σ → Prop
  /-- The run goes on to the next batch from a batch with these states. -/
  leaves : List σ → Prop

/-- The labels of the steps. -/
inductive Label (α : Type u) (ε : Type w) where
  /-- Something happens to a host. -/
  | host (n : α) (event : ε)
  /-- The next batch begins. -/
  | next

/-- One step of a run. -/
inductive Step {α : Type u} {σ : Type v} {ε : Type w} [DecidableEq α] (R : Rules σ ε) :
    State α σ → Label α ε → State α σ → Prop
  | work {s : State α σ} {n : α} {event : ε} {x : σ} (hn : n ∈ s.current)
    (h : R.work (s.host n) event x) :
    Step R s (.host n event) { s with host := Function.update s.host n x }
  | environment {s : State α σ} {n : α} {event : ε} {x : σ} (h : R.environment (s.host n) event x) :
    Step R s (.host n event) { s with host := Function.update s.host n x }
  | next {s : State α σ} {batch : List α} {rest : List (List α)} (hahead : s.ahead = batch :: rest)
    (h : R.leaves (s.current.map s.host)) :
    Step R s .next { s with done := s.done ++ [s.current], current := batch, ahead := rest }

/-- The runs through the batches of a plan, from these states of the hosts. They begin with an empty
batch. -/
def runs {α : Type u} {σ : Type v} {ε : Type w} [DecidableEq α] (R : Rules σ ε)
    (plan : List (List α)) (init : (α → σ) → Prop) : TransitionSystem (State α σ) (Label α ε) where
  init s := s.done = [] ∧ s.current = [] ∧ s.ahead = plan ∧ init s.host
  step := Step R

section
variable {α : Type u} {σ : Type v} {ε : Type w} [DecidableEq α] {R : Rules σ ε}
  {plan first second : List (List α)} {init : (α → σ) → Prop} {s : State α σ} {n : α}

end

end Rolling
