import Mathlib.Data.List.Forall2
import Mathlib.Data.List.Infix

/-!
# Selecting lines with `grep`

Basic regular expressions without brackets, repetitions, anchors and escapes: a dot matches any
character and every other character itself. A line is selected if the expression matches
somewhere in it. An expression between two separators is matched against a whole field of the line
(`selects_field_iff`).
-/

namespace Grep

/-- The expression matches at the start of the text. -/
def matchesAt : List Char → List Char → Bool
  | [], _ => true
  | _ :: _, [] => false
  | p :: ps, c :: cs => (p == '.' || p == c) && matchesAt ps cs

/-- `grep` selects the line. -/
def selects (regex line : String) : Bool :=
  line.toList.tails.any fun text => matchesAt regex.toList text

/-- The text without the first part that the expression matches. -/
def deleteFrom (ps : List Char) : List Char → List Char
  | [] => []
  | c :: cs =>
    if matchesAt ps (c :: cs) then (c :: cs).drop ps.length else c :: deleteFrom ps cs

/-- `sed s@regex@@`. -/
def delete (regex line : String) : String := String.ofList (deleteFrom regex.toList line.toList)

/-- The expression matches the text as a whole. -/
def Matches (regex text : String) : Prop :=
  List.Forall₂ (fun p c => p = '.' ∨ p = c) regex.toList text.toList

instance (regex text : String) : Decidable (Matches regex text) :=
  inferInstanceAs (Decidable (List.Forall₂ _ _ _))

/-- A text matches itself, whatever follows. -/
theorem matchesAt_append (ps cs : List Char) : matchesAt ps (ps ++ cs) = true := by
  induction ps with
  | nil => rfl
  | cons p ps ih => simp [matchesAt, ih]

/-- The start of an expression matches where the expression does. -/
theorem matchesAt_of_append {ps qs cs : List Char} (h : matchesAt (ps ++ qs) cs = true) :
    matchesAt ps cs = true := by
  induction ps generalizing cs with
  | nil => rfl
  | cons p ps ih =>
    cases cs with
    | nil => cases h
    | cons c cs =>
      rw [List.cons_append, matchesAt, Bool.and_eq_true] at h
      rw [matchesAt, h.1, ih h.2]
      rfl

/-- What matches at the start is deleted there. -/
theorem delete_append {regex : String} (hne : regex ≠ "") (rest : String) :
    delete regex (regex ++ rest) = rest := by
  obtain ⟨p, ps, hps⟩ := List.exists_cons_of_ne_nil (mt String.toList_eq_nil_iff.1 hne)
  have hmatch := matchesAt_append regex.toList rest.toList
  rw [delete, String.toList_append]
  rw [hps, List.cons_append] at hmatch ⊢
  rw [deleteFrom, if_pos hmatch, ← List.cons_append, List.drop_left, String.ofList_toList]

/-- An expression longer than the text matches nowhere. -/
theorem delete_of_length_lt {regex line : String}
    (h : line.toList.length < regex.toList.length) : delete regex line = line := by
  have hno : ∀ ps cs : List Char, cs.length < ps.length → matchesAt ps cs = false := by
    intro ps
    induction ps with
    | nil => exact fun cs h => absurd h (Nat.not_lt_zero _)
    | cons p ps ih =>
      intro cs h
      cases cs with
      | nil => rfl
      | cons c cs => rw [matchesAt, ih cs (Nat.lt_of_succ_lt_succ h), Bool.and_false]
  have hkeep : ∀ ps cs : List Char, cs.length < ps.length → deleteFrom ps cs = cs := by
    intro ps cs
    induction cs with
    | nil => exact fun _ => rfl
    | cons c cs ih =>
      intro h
      rw [deleteFrom, if_neg (by simp [hno ps _ h]), ih (Nat.lt_of_succ_lt h)]
  rw [delete, hkeep _ _ h, String.ofList_toList]

theorem selects_iff {regex line : String} :
    selects regex line = true ↔
      ∃ before text, before ++ text = line.toList ∧ matchesAt regex.toList text = true := by
  simp only [selects, List.any_eq_true, List.mem_tails, List.IsSuffix]
  constructor
  · rintro ⟨text, ⟨before, h⟩, hm⟩
    exact ⟨before, text, h, hm⟩
  · rintro ⟨before, text, h, hm⟩
    exact ⟨text, ⟨before, h⟩, hm⟩

/-- A line is selected by every text that stands in it. -/
theorem selects_of_infix {regex line : String} (h : regex.toList <:+: line.toList) :
    selects regex line = true := by
  obtain ⟨before, after, h⟩ := h
  exact selects_iff.2 ⟨before, regex.toList ++ after, by rw [← h, List.append_assoc],
    matchesAt_append _ _⟩

/-- What an expression matches at the start of a text. -/
theorem matchesAt_iff {ps cs : List Char} :
    matchesAt ps cs = true ↔
      ∃ text rest, text ++ rest = cs ∧ List.Forall₂ (fun p c => p = '.' ∨ p = c) ps text := by
  constructor
  · induction ps generalizing cs with
    | nil => exact fun _ => ⟨[], cs, rfl, .nil⟩
    | cons p ps ih =>
      intro h
      cases cs with
      | nil => cases h
      | cons c cs =>
        simp only [matchesAt, Bool.and_eq_true, Bool.or_eq_true, beq_iff_eq] at h
        obtain ⟨text, rest, rfl, htext⟩ := ih h.2
        exact ⟨c :: text, rest, rfl, .cons h.1 htext⟩
  · rintro ⟨text, rest, rfl, h⟩
    induction h with
    | nil => rfl
    | cons hpc _ ih =>
      simp only [List.cons_append, matchesAt, Bool.and_eq_true, Bool.or_eq_true, beq_iff_eq]
      exact ⟨hpc, ih⟩

/-- An expression that matches a text as a whole matches its last character. -/
theorem getLast?_of_matchesAt {ps cs : List Char} {p c : Char} (h : matchesAt ps cs = true)
    (hlength : cs.length = ps.length) (hp : ps.getLast? = some p) (hc : cs.getLast? = some c) :
    p = '.' ∨ p = c := by
  obtain ⟨text, rest, rfl, htext⟩ := matchesAt_iff.1 h
  have hrest : rest = [] := by
    have hle := htext.length_eq
    rw [List.length_append] at hlength
    exact List.eq_nil_of_length_eq_zero (by omega)
  subst hrest
  rw [List.append_nil, ← List.head?_reverse] at hc
  rw [← List.head?_reverse] at hp
  have hrev := List.rel_reverse htext
  revert hrev
  cases hps : ps.reverse with
  | nil =>
    rw [hps] at hp
    cases hp
  | cons q qs =>
    cases hcs : text.reverse with
    | nil =>
      rw [hcs] at hc
      cases hc
    | cons d ds =>
      rw [hps] at hp
      rw [hcs] at hc
      cases hp
      cases hc
      exact fun hrev => (List.forall₂_cons.1 hrev).1

/-- Three fields without the separator are determined by their line. -/
theorem fields_inj {sep : Char} {before text after b t a : List Char} (hbefore : sep ∉ before)
    (htext : sep ∉ text) (hafter : sep ∉ after)
    (h : b ++ sep :: (t ++ sep :: a) = before ++ sep :: (text ++ sep :: after)) :
    b = before ∧ t = text ∧ a = after := by
  have hcount := congrArg (List.count sep) h
  simp only [List.count_append, List.count_cons_self, List.count_eq_zero_of_not_mem hbefore,
    List.count_eq_zero_of_not_mem htext, List.count_eq_zero_of_not_mem hafter] at hcount
  have hb : sep ∉ b := List.count_eq_zero.1 (by omega)
  have ht : sep ∉ t := List.count_eq_zero.1 (by omega)
  have ha : sep ∉ a := List.count_eq_zero.1 (by omega)
  have hsplit := congrArg (List.splitOn sep) h
  rw [List.splitOn_append_cons_self_of_not_mem hb, List.splitOn_append_cons_self_of_not_mem ht,
    List.splitOn_append_cons_self_of_not_mem hbefore,
    List.splitOn_append_cons_self_of_not_mem htext, List.splitOn_eq_singleton ha,
    List.splitOn_eq_singleton hafter] at hsplit
  cases hsplit
  exact ⟨rfl, rfl, rfl⟩

/-- What a concatenation is related to, character by character, is cut where the concatenation
is. -/
theorem forall₂_append_left {α β : Type*} {R : α → β → Prop} {as bs : List α} {xs : List β}
    (h : List.Forall₂ R (as ++ bs) xs) :
    ∃ ys zs, ys ++ zs = xs ∧ List.Forall₂ R as ys ∧ List.Forall₂ R bs zs := by
  have htake := List.forall₂_take as.length h
  have hdrop := List.forall₂_drop as.length h
  rw [List.take_left] at htake
  rw [List.drop_left] at hdrop
  exact ⟨_, _, List.take_append_drop as.length xs, htake, hdrop⟩

/-- An expression between two separators selects a line of three fields iff it matches the second
one as a whole. -/
theorem selects_field_iff {sep : Char} {regex before text after : String} (hsep : sep ≠ '.')
    (hbefore : sep ∉ before.toList) (htext : sep ∉ text.toList) (hafter : sep ∉ after.toList) :
    selects (String.singleton sep ++ regex ++ String.singleton sep)
        (before ++ String.singleton sep ++ text ++ String.singleton sep ++ after) = true ↔
      Matches regex text := by
  rw [selects_iff]
  simp only [String.toList_append, String.toList_singleton, List.append_assoc,
    List.singleton_append, matchesAt_iff]
  constructor
  · rintro ⟨b, _, hline, u, rest, rfl, hmatch⟩
    -- the separators of the expression stand for themselves
    obtain ⟨c, v, hc, hv, rfl⟩ := List.forall₂_cons_left_iff.1 hmatch
    obtain ⟨t, w, rfl, ht, hw⟩ := forall₂_append_left hv
    obtain ⟨d, _, hd, hnil, rfl⟩ := List.forall₂_cons_left_iff.1 hw
    cases hnil
    obtain rfl : sep = c := hc.resolve_left hsep
    obtain rfl : sep = d := hd.resolve_left hsep
    simp only [List.cons_append, List.append_assoc, List.nil_append] at hline
    obtain ⟨-, rfl, -⟩ := fields_inj hbefore htext hafter hline
    exact ht
  · intro h
    refine ⟨before.toList, _, rfl, sep :: (text.toList ++ [sep]), after.toList, by simp, ?_⟩
    exact .cons (.inr rfl) (List.rel_append h (.cons (.inr rfl) .nil))

end Grep
