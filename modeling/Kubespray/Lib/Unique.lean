import Mathlib.Data.List.Induction
import Mathlib.Data.List.Nodup
import Mathlib.Data.List.Perm.Basic

/-!
# First occurrences

Laws of `List.eraseDups`, which keeps the first occurrence of each element: erasing a part first
makes no difference (`eraseDups_append_eraseDups`), and neither do elements that are there already
(`eraseDups_append_of_subset`). `uniqueBy` keeps the first element of each key. Filters of lists,
with and without duplicates, in terms of the tests (`filter_eq_filter_iff`, `filter_eq_singleton`).
-/

universe u v

namespace Unique

variable {α : Type u} [DecidableEq α] {as bs cs : List α} {a : α} {q : α → Bool}

theorem eraseDups_concat :
    (as ++ [a]).eraseDups = if a ∈ as then as.eraseDups else as.eraseDups ++ [a] := by
  rw [List.eraseDups_append]
  split
  · next h => simp [List.removeAll, h]
  · next h => simp [List.removeAll, h, List.eraseDups_cons]

theorem filter_eraseDups : as.eraseDups.filter q = (as.filter q).eraseDups := by
  induction as using List.reverseRecOn with
  | nil => rfl
  | append_singleton as a ih =>
    rw [eraseDups_concat, List.filter_append]
    cases hq : q a with
    | false =>
      rw [List.filter_cons_of_neg (by simp [hq]), List.filter_nil, List.append_nil, ← ih]
      split
      · rfl
      · simp [hq]
    | true =>
      rw [List.filter_cons_of_pos hq, List.filter_nil, eraseDups_concat, ← ih]
      by_cases ha : a ∈ as
      · rw [if_pos ha, if_pos (List.mem_filter.2 ⟨ha, hq⟩)]
      · rw [if_neg ha, if_neg fun hin => ha (List.mem_filter.1 hin).1, List.filter_append,
          List.filter_cons_of_pos hq, List.filter_nil]

theorem eraseDups_eraseDups (as : List α) : as.eraseDups.eraseDups = as.eraseDups := by
  induction as using List.reverseRecOn with
  | nil => rfl
  | append_singleton as a ih =>
    rw [eraseDups_concat]
    split
    · exact ih
    · next h => rw [eraseDups_concat, if_neg (mt List.mem_eraseDups.1 h), ih]

/-- Erasing in the second part first makes no difference. -/
theorem eraseDups_append_eraseDups (as bs : List α) :
    (as ++ bs.eraseDups).eraseDups = (as ++ bs).eraseDups := by
  rw [List.eraseDups_append, List.eraseDups_append, List.removeAll, List.removeAll,
    filter_eraseDups, eraseDups_eraseDups]

/-- Nothing is added by elements that are there already. -/
theorem eraseDups_append_of_subset (h : ∀ b ∈ bs, b ∈ as) :
    (as ++ bs).eraseDups = as.eraseDups := by
  have hnone : bs.removeAll as = [] := by
    refine List.filter_eq_nil_iff.2 fun b hb => ?_
    simpa using h b hb
  rw [List.eraseDups_append, hnone, List.eraseDups_nil, List.append_nil]

/-- The first of the elements with the same key. -/
def uniqueBy {α : Type u} {β : Type v} [DecidableEq β] (key : α → β) (l : List α) : List α :=
  l.foldl (fun seen x => if seen.any (key · = key x) then seen else seen ++ [x]) []

/-- `uniqueBy` keeps an element of each key. -/
theorem uniqueBy_spec {α : Type u} {β : Type v} [DecidableEq β] (key : α → β) (l : List α) :
    (∀ w ∈ uniqueBy key l, w ∈ l) ∧ ∀ x ∈ l, ∃ w ∈ uniqueBy key l, key w = key x := by
  induction l using List.reverseRecOn with
  | nil => exact ⟨fun _ h => h, nofun⟩
  | append_singleton l x ih =>
    rw [uniqueBy, List.foldl_append, List.foldl_cons, List.foldl_nil, ← uniqueBy]
    split
    · next hseen =>
      refine ⟨fun w hw => List.mem_append_left _ (ih.1 w hw), fun y hy => ?_⟩
      rcases List.mem_append.1 hy with hy | hy
      · exact ih.2 y hy
      · obtain ⟨w, hw, hkey⟩ := List.any_eq_true.1 hseen
        exact ⟨w, hw, List.mem_singleton.1 hy ▸ of_decide_eq_true hkey⟩
    · refine ⟨fun w hw => ?_, fun y hy => ?_⟩
      · exact (List.mem_append.1 hw).elim (fun hw => List.mem_append_left _ (ih.1 w hw))
          (List.mem_append_right _)
      · rcases List.mem_append.1 hy with hy | hy
        · obtain ⟨w, hw, hkey⟩ := ih.2 y hy
          exact ⟨w, List.mem_append_left _ hw, hkey⟩
        · exact ⟨y, List.mem_append_right _ hy, rfl⟩

/-- Elements that are their own keys are only freed of duplicates. -/
theorem uniqueBy_eq_eraseDups {key : α → α} (h : ∀ x ∈ as, key x = x) :
    uniqueBy key as = as.eraseDups := by
  induction as using List.reverseRecOn with
  | nil => rfl
  | append_singleton as x ih =>
    rw [List.forall_mem_append] at h
    have hx : key x = x := h.2 x (.head _)
    have hany : (as.eraseDups.any (key · = key x)) = true ↔ x ∈ as := by
      rw [List.any_eq_true]
      refine ⟨fun ⟨y, hy, heq⟩ => ?_, fun hin => ⟨x, List.mem_eraseDups.2 hin, by simp⟩⟩
      rw [decide_eq_true_eq, hx, h.1 y (List.mem_eraseDups.1 hy)] at heq
      exact heq ▸ List.mem_eraseDups.1 hy
    rw [uniqueBy, List.foldl_append, List.foldl_cons, List.foldl_nil, ← uniqueBy, ih h.1,
      eraseDups_concat]
    exact if_congr hany rfl rfl

/-! ## Filters -/

section
variable {α : Type u} {p q : α → Bool} {xs : List α} {a : α}

/-- A list is filtered in the same way by tests that agree on it, and by no others. -/
theorem filter_eq_filter_iff : xs.filter p = xs.filter q ↔ ∀ x ∈ xs, p x = q x := by
  refine ⟨fun h x hx => ?_, fun h => List.filter_congr h⟩
  have hmem : x ∈ xs.filter p ↔ x ∈ xs.filter q := by rw [h]
  rw [List.mem_filter, List.mem_filter, and_iff_right hx, and_iff_right hx] at hmem
  exact Bool.eq_iff_iff.2 hmem

/-- In a list without duplicates a filter leaves one element iff that is the only one it takes. -/
theorem filter_eq_singleton (hnd : xs.Nodup) :
    xs.filter p = [a] ↔ a ∈ xs ∧ ∀ b ∈ xs, p b = true ↔ b = a := by
  constructor
  · intro h
    have ha : a ∈ xs ∧ p a = true := List.mem_filter.1 (by rw [h]; exact List.mem_singleton_self a)
    refine ⟨ha.1, fun b hb => ⟨fun hp => ?_, fun hba => hba ▸ ha.2⟩⟩
    have hmem : b ∈ xs.filter p := List.mem_filter.2 ⟨hb, hp⟩
    rw [h] at hmem
    exact List.mem_singleton.1 hmem
  · rintro ⟨ha, h⟩
    have hperm : (xs.filter p).Perm [a] := by
      refine (List.perm_ext_iff_of_nodup (hnd.filter p) (List.nodup_singleton a)).2 fun b => ?_
      rw [List.mem_filter, List.mem_singleton]
      exact ⟨fun hb => (h b hb.1).1 hb.2, fun hb => hb ▸ ⟨ha, (h a ha).2 rfl⟩⟩
    exact List.perm_singleton.1 hperm

end

end Unique
