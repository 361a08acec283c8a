/-!
# Transition systems

States reached by labelled steps from initial states, and the rules by which facts about all of
them are proved: an invariant that the initial states have and every step keeps
(`Reachable.invariant`), and guards on the steps (`TransitionSystem.guard`), under which no state is
lost if every step meets them (`Reachable.guard`).
-/

universe u v

/-- A system of states with labelled steps. -/
structure TransitionSystem (σ : Type u) (ι : Type v) where
  /-- The initial states. -/
  init : σ → Prop
  /-- `step s a t`: the step with label `a` leads from `s` to `t`. -/
  step : σ → ι → σ → Prop

namespace TransitionSystem

variable {σ : Type u} {ι : Type v}

/-- The states that runs of any finite length lead to. -/
inductive Reachable (S : TransitionSystem σ ι) : σ → Prop
  | init {s : σ} : S.init s → Reachable S s
  | step {s t : σ} {a : ι} : Reachable S s → S.step s a t → Reachable S t

/-- The system whose steps are those that meet `G` in the state before the step. -/
def guard (S : TransitionSystem σ ι) (G : σ → ι → Prop) : TransitionSystem σ ι where
  init := S.init
  step s a t := G s a ∧ S.step s a t

variable {S : TransitionSystem σ ι} {G : σ → ι → Prop} {Inv : σ → Prop}

/-- What holds initially and is kept by every step from a reachable state holds of every
reachable state. -/
theorem Reachable.invariant {s : σ} (hs : S.Reachable s) (h₀ : ∀ s, S.init s → Inv s)
    (hstep : ∀ s a t, S.Reachable s → Inv s → S.step s a t → Inv t) : Inv s := by
  induction hs with
  | init h => exact h₀ _ h
  | step hr hst ih => exact hstep _ _ _ hr ih hst

/-- A guard that every step meets does not restrict the runs. -/
theorem Reachable.guard {s : σ} (hs : S.Reachable s) (hG : ∀ s a, G s a) :
    (S.guard G).Reachable s := by
  induction hs with
  | init h => exact .init h
  | step _ hst ih => exact .step ih ⟨hG _ _, hst⟩

end TransitionSystem
