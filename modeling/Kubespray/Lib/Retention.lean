import Mathlib.Data.Finset.Card
import Mathlib.Data.Finset.Max

/-!
# The greatest elements of a set

`top n s` are the greatest `n` elements of `s`. What is added to a set of which only these were kept
is compared with them as with the whole set (`top_union_top`), so after any number of additions, with
cuts after some of them, the greatest `n` elements of all are left (`top_foldl`).
-/

universe u

namespace Retention

variable {α : Type u} [LinearOrder α]

/-- The elements of `s` that are greater than `x`. -/
def above (s : Finset α) (x : α) : Finset α := s.filter (x < ·)

/-- The elements of which fewer than `n` are greater. -/
def top (n : Nat) (s : Finset α) : Finset α := s.filter fun x => (above s x).card < n

variable {n : Nat} {s t : Finset α} {x y : α}

@[simp] theorem mem_above : y ∈ above s x ↔ y ∈ s ∧ x < y := Finset.mem_filter

theorem mem_top : x ∈ top n s ↔ x ∈ s ∧ (above s x).card < n := Finset.mem_filter

theorem top_subset (n : Nat) (s : Finset α) : top n s ⊆ s := Finset.filter_subset _ _

theorem above_subset (h : s ⊆ t) (x : α) : above s x ⊆ above t x := Finset.filter_subset_filter _ h

/-- Above an element that is not kept there are `n` that are kept. -/
theorem le_card_above_top (hy : y ∈ s) (hnot : y ∉ top n s) : n ≤ (above (top n s) y).card := by
  by_contra hlt
  have hmany : n ≤ (above s y).card := by
    by_contra h
    exact hnot (mem_top.2 ⟨hy, not_le.1 h⟩)
  have hlost : (above s y \ above (top n s) y).Nonempty := by
    refine Finset.sdiff_nonempty.2 fun hsub => ?_
    exact hlt (hmany.trans (Finset.card_le_card hsub))
  -- all that is above the greatest lost element is kept
  obtain ⟨z, hz, hmax⟩ := Finset.exists_max_image _ id hlost
  obtain ⟨hzs, hzlost⟩ := Finset.mem_sdiff.1 hz
  obtain ⟨hzs, hyz⟩ := mem_above.1 hzs
  have hznot : z ∉ top n s := fun h => hzlost (mem_above.2 ⟨h, hyz⟩)
  have hz_many : n ≤ (above s z).card := by
    by_contra h
    exact hznot (mem_top.2 ⟨hzs, not_le.1 h⟩)
  refine hlt (hz_many.trans (Finset.card_le_card fun w hw => ?_))
  obtain ⟨hws, hzw⟩ := mem_above.1 hw
  by_contra hwlost
  have hle := hmax w (Finset.mem_sdiff.2 ⟨mem_above.2 ⟨hws, hyz.trans hzw⟩, hwlost⟩)
  exact absurd hzw (not_lt.2 hle)

/-- A set with at most `n` elements is kept. -/
theorem top_of_card_le (h : s.card ≤ n) : top n s = s := by
  refine Finset.filter_true_of_mem fun x hx => ?_
  have hlt : (above s x).card < s.card :=
    Finset.card_lt_card (Finset.filter_ssubset.2 ⟨x, hx, lt_irrefl x⟩)
  omega

/-- What was not kept before is not missed. -/
theorem top_union_top (n : Nat) (s t : Finset α) : top n (top n s ∪ t) = top n (s ∪ t) := by
  have hsub : top n s ∪ t ⊆ s ∪ t := Finset.union_subset_union_left (top_subset n s)
  ext x
  rw [mem_top, mem_top]
  constructor
  · rintro ⟨hx, hlt⟩
    refine ⟨hsub hx, ?_⟩
    by_contra hmany
    have hlost : ¬ above (s ∪ t) x ⊆ above (top n s ∪ t) x := fun h =>
      hmany ((Finset.card_le_card h).trans_lt hlt)
    obtain ⟨y, hy, hynot⟩ := Finset.not_subset.1 hlost
    obtain ⟨hyst, hxy⟩ := mem_above.1 hy
    have hytop : y ∉ top n s := fun h =>
      hynot (mem_above.2 ⟨Finset.mem_union_left _ h, hxy⟩)
    have hys : y ∈ s := (Finset.mem_union.1 hyst).resolve_right fun h =>
      hynot (mem_above.2 ⟨Finset.mem_union_right _ h, hxy⟩)
    have hcard := le_card_above_top hys hytop
    have hle : (above (top n s) y).card ≤ (above (top n s ∪ t) x).card := by
      refine Finset.card_le_card fun w hw => ?_
      obtain ⟨hw, hyw⟩ := mem_above.1 hw
      exact mem_above.2 ⟨Finset.mem_union_left _ hw, hxy.trans hyw⟩
    omega
  · rintro ⟨hx, hlt⟩
    have hcount := (Finset.card_le_card (above_subset hsub x)).trans_lt hlt
    refine ⟨?_, hcount⟩
    rcases Finset.mem_union.1 hx with hx | hx
    · have hsub_s : s ⊆ s ∪ t := Finset.subset_union_left
      have hcount_s := (Finset.card_le_card (above_subset hsub_s x)).trans_lt hlt
      exact Finset.mem_union_left _ (mem_top.2 ⟨hx, hcount_s⟩)
    · exact Finset.mem_union_right _ hx

theorem top_top (n : Nat) (s : Finset α) : top n (top n s) = top n s := by
  have h := top_union_top n s ∅
  rwa [Finset.union_empty, Finset.union_empty] at h

/-- After additions, with cuts after some of them, the same elements are the greatest ones as
without any cut. -/
theorem top_foldl (n : Nat) (steps : List (Finset α × Bool)) (s : Finset α) :
    top n (steps.foldl (fun s p => if p.2 then top n (s ∪ p.1) else s ∪ p.1) s) =
      top n (steps.foldl (fun s p => s ∪ p.1) s) := by
  have key : ∀ s s', top n s = top n s' →
      top n (steps.foldl (fun s p => if p.2 then top n (s ∪ p.1) else s ∪ p.1) s) =
        top n (steps.foldl (fun s p => s ∪ p.1) s') := by
    induction steps with
    | nil => exact fun s s' h => h
    | cons p steps ih =>
      intro s s' h
      have hunion : top n (s ∪ p.1) = top n (s' ∪ p.1) := by
        rw [← top_union_top, h, top_union_top]
      refine ih _ _ ?_
      dsimp only
      split
      · rw [top_top, hunion]
      · exact hunion
  exact key s s rfl

/-- Of an increasing list the last `n` elements are kept. -/
theorem top_toFinset {l : List α} (hl : l.Pairwise (· < ·)) :
    top n l.toFinset = (l.drop (l.length - n)).toFinset := by
  induction l with
  | nil => rw [List.toFinset_nil, top, Finset.filter_empty, List.drop_nil, List.toFinset_nil]
  | cons a l ih =>
    obtain ⟨ha, hl⟩ := List.pairwise_cons.1 hl
    have hnot : a ∉ l.toFinset := fun h => lt_irrefl a (ha a (List.mem_toFinset.1 h))
    have hcard : l.toFinset.card = l.length := List.toFinset_card_of_nodup (hl.imp fun h => h.ne)
    rw [List.toFinset_cons, List.length_cons]
    by_cases hn : l.length < n
    · rw [top_of_card_le, Nat.sub_eq_zero_of_le hn, List.drop_zero, List.toFinset_cons]
      rw [Finset.card_insert_of_notMem hnot, hcard]
      exact hn
    · rw [Nat.succ_sub (not_lt.1 hn), List.drop_succ_cons, ← ih hl]
      ext x
      have habove : ∀ x ∈ l.toFinset, above (insert a l.toFinset) x = above l.toFinset x := by
        intro x hx
        refine Finset.filter_insert .. |>.trans (if_neg ?_)
        exact not_lt.2 (ha x (List.mem_toFinset.1 hx)).le
      rw [mem_top, mem_top, Finset.mem_insert]
      constructor
      · rintro ⟨rfl | hx, hlt⟩
        · have hall : l.toFinset ⊆ above (insert x l.toFinset) x := fun y hy =>
            mem_above.2 ⟨Finset.mem_insert_of_mem hy, ha y (List.mem_toFinset.1 hy)⟩
          have hle := Finset.card_le_card hall
          omega
        · exact ⟨hx, habove x hx ▸ hlt⟩
      · rintro ⟨hx, hlt⟩
        exact ⟨.inr hx, (habove x hx).symm ▸ hlt⟩

end Retention
