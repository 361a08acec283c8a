import Mathlib.Data.List.TakeWhile
import Mathlib.Logic.Function.Iterate

/-!
# Removing the first group of elements

An edit that removes the first elements with a property, as many as stand together. One edit leaves
the later groups; a pass of edits for several properties removes at least one element of each
property that any has (`countP_pass`), so that after enough passes only the elements without all of
them are left (`passes_eq_filter`).
-/

universe u

namespace FirstGroup

variable {α : Type u}

/-- The list without the first group of elements with the property. -/
def dropGroup (p : α → Bool) (l : List α) : List α :=
  l.takeWhile (!p ·) ++ (l.dropWhile (!p ·)).dropWhile p

/-- The edits for all properties. -/
def pass (ps : List (α → Bool)) (l : List α) : List α := ps.foldl (fun l p => dropGroup p l) l

variable {p q : α → Bool} {ps : List (α → Bool)} {l : List α} {n : Nat}

theorem dropGroup_cons_of_neg {x : α} (h : p x = false) :
    dropGroup p (x :: l) = x :: dropGroup p l := by
  simp [dropGroup, h]

theorem dropGroup_cons_of_pos {x : α} (h : p x = true) :
    dropGroup p (x :: l) = l.dropWhile p := by
  simp [dropGroup, h]

theorem dropGroup_sublist (p : α → Bool) (l : List α) : (dropGroup p l).Sublist l := by
  have h := (List.Sublist.refl (l.takeWhile (!p ·))).append
    ((@List.dropWhile_sublist _ (l.dropWhile (!p ·)) p))
  rwa [List.takeWhile_append_dropWhile] at h

/-- Elements without the property stay. -/
theorem filter_dropGroup (hq : ∀ x, q x = true → p x = false) :
    (dropGroup p l).filter q = l.filter q := by
  have hgroup : ((l.dropWhile (!p ·)).takeWhile p).filter q = [] := by
    refine List.filter_eq_nil_iff.2 fun x hx hqx => ?_
    have hpx := List.mem_takeWhile_imp hx
    rw [hq x hqx] at hpx
    cases hpx
  calc (dropGroup p l).filter q
      = (l.takeWhile (!p ·)).filter q ++ (((l.dropWhile (!p ·)).takeWhile p).filter q ++
          ((l.dropWhile (!p ·)).dropWhile p).filter q) := by
        rw [dropGroup, List.filter_append, hgroup, List.nil_append]
    _ = l.filter q := by
        rw [← List.filter_append, List.takeWhile_append_dropWhile, ← List.filter_append,
          List.takeWhile_append_dropWhile]

/-- An element with the property is removed, if there is one. -/
theorem countP_dropGroup : (dropGroup p l).countP p ≤ l.countP p - 1 := by
  induction l with
  | nil => simp [dropGroup]
  | cons x l ih =>
    cases hx : p x with
    | false =>
      rw [dropGroup_cons_of_neg hx, List.countP_cons_of_neg (by simp [hx]),
        List.countP_cons_of_neg (by simp [hx])]
      exact ih
    | true =>
      rw [dropGroup_cons_of_pos hx, List.countP_cons_of_pos hx]
      exact (List.dropWhile_sublist p).countP_le

theorem pass_sublist (ps : List (α → Bool)) (l : List α) : (pass ps l).Sublist l := by
  induction ps generalizing l with
  | nil => exact .refl l
  | cons p ps ih => exact (ih _).trans (dropGroup_sublist p l)

theorem filter_pass (hq : ∀ p ∈ ps, ∀ x, q x = true → p x = false) :
    (pass ps l).filter q = l.filter q := by
  induction ps generalizing l with
  | nil => rfl
  | cons p ps ih =>
    rw [List.forall_mem_cons] at hq
    exact (ih hq.2).trans (filter_dropGroup hq.1)

theorem countP_pass (hp : p ∈ ps) : (pass ps l).countP p ≤ l.countP p - 1 := by
  induction ps generalizing l with
  | nil => cases hp
  | cons p' ps ih =>
    rcases List.mem_cons.1 hp with rfl | hp
    · exact (pass_sublist ps _).countP_le.trans countP_dropGroup
    · exact (ih hp).trans (Nat.sub_le_sub_right (dropGroup_sublist p' l).countP_le 1)

/-- After as many passes as there are elements of any one property, only the elements without all
of them are left. -/
theorem passes_eq_filter (h : ∀ p ∈ ps, l.countP p ≤ n) :
    (pass ps)^[n] l = l.filter fun x => ps.all fun p => !p x := by
  induction n generalizing l with
  | zero =>
    refine (List.filter_eq_self.2 fun x hx => ?_).symm
    rw [List.all_eq_true]
    intro p hp
    have hnone := List.countP_eq_zero.1 (Nat.le_zero.1 (h p hp)) x hx
    simpa using hnone
  | succ n ih =>
    rw [Function.iterate_succ_apply, ih fun p hp => ?_]
    · refine filter_pass fun p hp x hx => ?_
      have := List.all_eq_true.1 hx p hp
      simpa using this
    · have hle := @countP_pass _ p ps l hp
      have hn := h p hp
      omega

end FirstGroup
