import Mathlib.Data.List.Basic

/-!
# Replacing the last match in a list

An edit that looks for the last element with a property, puts another one in its place and appends
it when there is none. What a filter sees of the edit depends on whether it keeps the elements that
are looked for: all of it (`filter_replaceLast`) or nothing (`filter_replaceLast_of_not`).
-/

universe u

namespace LastMatch

variable {α : Type u}

/-- The last element with the property, between the elements before and after it. -/
def splitLast (p : α → Bool) : List α → Option (List α × α × List α)
  | [] => none
  | x :: xs =>
    match splitLast p xs with
    | some (before, y, after) => some (x :: before, y, after)
    | none => if p x then some ([], x, xs) else none

/-- Replace the last element with the property, or append. -/
def replaceLast (p : α → Bool) (new : α) (l : List α) : List α :=
  match splitLast p l with
  | some (before, _, after) => before ++ new :: after
  | none => l ++ [new]

/-- The list without the last element that has the property. -/
def withoutLast (p : α → Bool) (l : List α) : List α :=
  match splitLast p l with
  | some (before, _, after) => before ++ after
  | none => l

variable {p q : α → Bool} {x y new : α} {l before after : List α}

/-- The parts of the list. -/
theorem eq_of_splitLast (h : splitLast p l = some (before, y, after)) :
    l = before ++ y :: after ∧ p y = true := by
  induction l generalizing before with
  | nil => cases h
  | cons x xs ih =>
    rw [splitLast] at h
    split at h
    · next hrest =>
      cases h
      obtain ⟨rfl, hy⟩ := ih hrest
      exact ⟨rfl, hy⟩
    · split at h
      · next hx =>
        cases h
        exact ⟨rfl, hx⟩
      · cases h

theorem splitLast_eq_none_iff : splitLast p l = none ↔ ∀ x ∈ l, p x = false := by
  induction l with
  | nil => simp [splitLast]
  | cons y l ih =>
    rw [splitLast]
    cases hrest : splitLast p l with
    | some s =>
      have hnot : ¬ ∀ x ∈ l, p x = false := fun h => by
        rw [ih.2 h] at hrest
        cases hrest
      simp only [reduceCtorEq, List.forall_mem_cons, false_iff, not_and]
      exact fun _ => hnot
    | none =>
      have hall := ih.1 hrest
      cases hy : p y with
      | true => simp [hy]
      | false => simpa [hy] using hall

/-- The last element of a concatenation is in its second part, if that has one. -/
theorem splitLast_append : splitLast p (before ++ after) =
    match splitLast p after with
    | some (b, x, a) => some (before ++ b, x, a)
    | none => (splitLast p before).map fun s => (s.1, s.2.1, s.2.2 ++ after) := by
  induction before with
  | nil => cases hafter : splitLast p after <;> simp [hafter, splitLast]
  | cons y before ih =>
    rw [List.cons_append, splitLast, ih]
    cases hafter : splitLast p after with
    | some s => rfl
    | none =>
      cases hbefore : splitLast p before with
      | some s => simp [splitLast, hbefore]
      | none => cases hy : p y <;> simp [splitLast, hbefore, hy]

/-- Elements without the property keep their place between those before and after them. -/
theorem replaceLast_between {mid : List α} (h : ∀ x ∈ mid, p x = false) :
    ∃ before' after', before' ++ after' = replaceLast p new (before ++ after) ∧
      replaceLast p new (before ++ (mid ++ after)) = before' ++ (mid ++ after') := by
  have hmid := splitLast_eq_none_iff.2 h
  simp only [replaceLast, splitLast_append, hmid]
  cases splitLast p after with
  | some s => exact ⟨before, s.1 ++ new :: s.2.2, by simp, by simp⟩
  | none =>
    cases splitLast p before with
    | some s => exact ⟨s.1 ++ new :: s.2.2, after, by simp, by simp⟩
    | none => exact ⟨before, after ++ [new], by simp, by simp⟩

/-- A filter that keeps the elements with the property keeps the last one. -/
theorem splitLast_filter (hpq : ∀ x, p x = true → q x = true) :
    splitLast p (l.filter q) =
      (splitLast p l).map fun s => (s.1.filter q, s.2.1, s.2.2.filter q) := by
  induction l with
  | nil => rfl
  | cons x xs ih =>
    by_cases hq : q x
    · rw [List.filter_cons_of_pos hq, splitLast, splitLast, ih]
      cases hrest : splitLast p xs with
      | some s => simp [List.filter_cons_of_pos hq]
      | none =>
        cases p x <;> rfl
    · have hp : p x = false := Bool.eq_false_iff.2 fun hp => hq (hpq x hp)
      rw [List.filter_cons_of_neg hq, splitLast, ih]
      cases hrest : splitLast p xs with
      | some s => simp [List.filter_cons_of_neg hq]
      | none => simp [hp]

/-- The elements after the edit. -/
theorem mem_replaceLast : x ∈ replaceLast p new l ↔ x = new ∨ x ∈ withoutLast p l := by
  rw [replaceLast, withoutLast]
  split
  · rw [List.mem_append, List.mem_append, List.mem_cons, or_left_comm]
  · rw [List.mem_append, List.mem_singleton, or_comm]

/-- The elements before the edit. -/
theorem mem_iff : x ∈ l ↔ (∃ s, splitLast p l = some s ∧ x = s.2.1) ∨ x ∈ withoutLast p l := by
  rw [withoutLast]
  split
  · next before y after h =>
    have hlast : (∃ s, splitLast p l = some s ∧ x = s.2.1) ↔ x = y := by simp [h]
    rw [hlast, (eq_of_splitLast h).1, List.mem_append, List.mem_append, List.mem_cons, or_left_comm]
  · next h => simp [h]

/-- A filter that keeps what is looked for and what is put in its place sees the edit. -/
theorem filter_replaceLast (hpq : ∀ x, p x = true → q x = true) (hnew : q new = true) :
    (replaceLast p new l).filter q = replaceLast p new (l.filter q) := by
  rw [replaceLast, replaceLast, splitLast_filter hpq]
  cases splitLast p l with
  | some s => simp [hnew]
  | none => simp [hnew]

/-- A filter that drops both does not. -/
theorem filter_replaceLast_of_not (hpq : ∀ x, p x = true → q x = false) (hnew : q new = false) :
    (replaceLast p new l).filter q = l.filter q := by
  rw [replaceLast]
  split
  · next h =>
    obtain ⟨rfl, hy⟩ := eq_of_splitLast h
    simp [hnew, hpq _ hy]
  · simp [hnew]

/-- A filter that drops what is put in the place loses at most the element that was there. -/
theorem filter_replaceLast_sublist (hnew : q new = false) :
    ((replaceLast p new l).filter q).Sublist (l.filter q) := by
  rw [replaceLast]
  split
  · next h =>
    obtain ⟨rfl, -⟩ := eq_of_splitLast h
    rw [List.filter_append, List.filter_append, List.filter_cons_of_neg (by simp [hnew])]
    exact (List.Sublist.refl _).append ((List.sublist_cons_self _ _).filter _)
  · simp [hnew]

theorem filter_replaceLast_eq_iff (hnew : q new = false) :
    (replaceLast p new l).filter q = l.filter q ↔
      ∀ s, splitLast p l = some s → q s.2.1 = false := by
  rw [replaceLast]
  split
  · next h =>
    obtain ⟨rfl, -⟩ := eq_of_splitLast h
    rw [List.filter_append, List.filter_append, List.filter_cons_of_neg (by simp [hnew]),
      List.append_cancel_left_eq]
    simp only [h, Option.some.injEq, forall_eq']
    cases hy : q _ with
    | false => simp [List.filter_cons_of_neg, hy]
    | true =>
      rw [List.filter_cons_of_pos hy]
      simp
  · next h => simp [h, hnew]

end LastMatch
