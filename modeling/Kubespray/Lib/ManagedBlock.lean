import Kubespray.Lib.LastMatch

/-!
# A managed block of lines

An edit that keeps a block of lines between two marker lines: the block replaces the one that is
there, or is put in at one end. A file is then the lines of others with a block among them
(`HasBlock`). Setting the block (`hasBlock_setBlock`) and taking it out (`hasBlock_dropBlock`) leave the
lines of others, and an edit of one of these leaves the block (`hasBlock_replaceLast`).
-/

universe u

namespace ManagedBlock

open LastMatch (splitLast replaceLast splitLast_append splitLast_eq_none_iff)

/-- The markers of a block, and where it is put in if it is not there. -/
structure Marks (α : Type u) where
  opening : α
  closing : α
  atStart : Bool
  ne : opening ≠ closing

section
variable {α : Type u} [DecidableEq α] (m : Marks α)

/-- The lines before and after the last markers. -/
def around (lines : List α) : Option (List α × List α) :=
  match splitLast (· = m.opening) lines, splitLast (· = m.closing) lines with
  | some (before, _, after), some (before', _, after') =>
    if before.length < before'.length then some (before, after') else some (before', after)
  | _, _ => none

/-- The lines before and after the block, or after the place where it is put in. -/
def place (lines : List α) : List α × List α :=
  match around m lines with
  | some place => place
  | none => if m.atStart then ([], lines) else (lines, [])

/-- The lines with this block. -/
def setBlock (block lines : List α) : List α :=
  (place m lines).1 ++ m.opening :: (block ++ m.closing :: (place m lines).2)

/-- The lines without a block. -/
def dropBlock (lines : List α) : List α := (place m lines).1 ++ (place m lines).2

end

section
variable {α : Type u} (m : Marks α)

/-- The lines have no marker. -/
def Unmarked (lines : List α) : Prop := m.opening ∉ lines ∧ m.closing ∉ lines

/-- The block with its markers; an empty one has none. -/
def marked : List α → List α
  | [] => []
  | x :: block => m.opening :: (x :: block ++ [m.closing])

/-- The lines are those of others, with the block among them. -/
def HasBlock (block others lines : List α) : Prop :=
  ∃ before after, before ++ after = others ∧ lines = before ++ (marked m block ++ after)

variable {m} {block others before after lines : List α} {p : α → Bool} {new : α}

instance [DecidableEq α] : Decidable (Unmarked m lines) := inferInstanceAs (Decidable (_ ∧ _))

theorem unmarked_append :
    Unmarked m (before ++ after) ↔ Unmarked m before ∧ Unmarked m after := by
  simp only [Unmarked, List.mem_append, not_or]
  exact and_and_and_comm

theorem marked_of_ne_nil (h : block ≠ []) :
    marked m block = m.opening :: (block ++ [m.closing]) := by
  cases block with
  | nil => exact absurd rfl h
  | cons => rfl

theorem hasBlock_nil : HasBlock m [] lines lines := ⟨lines, [], List.append_nil _, by simp [marked]⟩

/-- An edit of a line of others leaves the block. -/
theorem hasBlock_replaceLast (h : HasBlock m block others lines)
    (hp : ∀ x ∈ marked m block, p x = false) :
    HasBlock m block (replaceLast p new others) (replaceLast p new lines) := by
  obtain ⟨before, after, rfl, rfl⟩ := h
  obtain ⟨before', after', hothers, hlines⟩ :=
    @LastMatch.replaceLast_between _ p new before after _ hp
  exact ⟨before', after', hothers, hlines⟩

/-- It puts in no marker if it does not write one. -/
theorem unmarked_replaceLast (h : Unmarked m lines) (hopening : new ≠ m.opening)
    (hclosing : new ≠ m.closing) : Unmarked m (replaceLast p new lines) := by
  have hmem : ∀ x ∈ replaceLast p new lines, x = new ∨ x ∈ lines := fun x hx =>
    (LastMatch.mem_replaceLast.1 hx).imp_right fun hx => LastMatch.mem_iff.2 (.inr hx)
  exact ⟨fun hin => (hmem _ hin).elim (fun heq => hopening heq.symm) h.1,
    fun hin => (hmem _ hin).elim (fun heq => hclosing heq.symm) h.2⟩

end

section
variable {α : Type u} [DecidableEq α] {m : Marks α}
  {block block' others before after lines : List α}

/-- Without markers there is no block. -/
theorem around_of_unmarked (h : Unmarked m lines) : around m lines = none := by
  have hbegin : splitLast (· = m.opening) lines = none :=
    splitLast_eq_none_iff.2 fun y hy => decide_eq_false fun heq => h.1 (heq ▸ hy)
  rw [around, hbegin]

/-- The block is found between its markers. -/
theorem around_marked (hne : block ≠ []) (hblock : Unmarked m block) (hafter : Unmarked m after) :
    around m (before ++ (marked m block ++ after)) = some (before, after) := by
  have hlines : before ++ (marked m block ++ after) =
      before ++ m.opening :: (block ++ m.closing :: after) := by
    rw [marked_of_ne_nil hne]
    simp
  have hbegin : splitLast (· = m.opening) (before ++ (marked m block ++ after)) =
      some (before, m.opening, block ++ m.closing :: after) := by
    have hrest : splitLast (· = m.opening) (block ++ m.closing :: after) = none := by
      refine splitLast_eq_none_iff.2 fun y hy => decide_eq_false fun heq => ?_
      subst heq
      rcases List.mem_append.1 hy with hy | hy
      · exact hblock.1 hy
      · exact (List.mem_cons.1 hy).elim m.ne hafter.1
    rw [hlines]
    simp [splitLast_append, splitLast, hrest]
  have hend : splitLast (· = m.closing) (before ++ (marked m block ++ after)) =
      some (before ++ m.opening :: block, m.closing, after) := by
    have hrest : splitLast (· = m.closing) after = none :=
      splitLast_eq_none_iff.2 fun y hy => decide_eq_false fun heq => hafter.2 (heq ▸ hy)
    rw [hlines, ← List.cons_append, ← List.append_assoc, splitLast_append]
    simp [splitLast, hrest]
  rw [around, hbegin, hend]
  simp

/-- The place of the block is among the lines of others. -/
theorem HasBlock.place (h : HasBlock m block others lines) (hothers : Unmarked m others)
    (hblock : Unmarked m block) :
    (ManagedBlock.place m lines).1 ++ (ManagedBlock.place m lines).2 = others := by
  obtain ⟨before, after, rfl, rfl⟩ := h
  cases block with
  | nil =>
    rw [ManagedBlock.place, marked, List.nil_append, around_of_unmarked hothers]
    cases m.atStart with
    | true => rfl
    | false => exact List.append_nil _
  | cons x block =>
    rw [ManagedBlock.place, around_marked (List.cons_ne_nil _ _) hblock
      (unmarked_append.1 hothers).2]

/-- Setting the block leaves the lines of others. -/
theorem hasBlock_setBlock (h : HasBlock m block others lines) (hothers : Unmarked m others)
    (hblock : Unmarked m block) (hne : block' ≠ []) :
    HasBlock m block' others (setBlock m block' lines) := by
  refine ⟨_, _, h.place hothers hblock, ?_⟩
  rw [setBlock, marked_of_ne_nil hne]
  simp

/-- Taking the block out leaves the lines of others. -/
theorem hasBlock_dropBlock (h : HasBlock m block others lines) (hothers : Unmarked m others)
    (hblock : Unmarked m block) : HasBlock m [] others (dropBlock m lines) := by
  rw [dropBlock, h.place hothers hblock]
  exact hasBlock_nil

/-- A block that is put in at the start stays in front. -/
theorem place_front (hstart : m.atStart = true) (hothers : Unmarked m others)
    (hblock : Unmarked m block) : place m (marked m block ++ others) = ([], others) := by
  cases block with
  | nil => rw [place, marked, List.nil_append, around_of_unmarked hothers, if_pos hstart]
  | cons x block =>
    have h := @around_marked _ _ m _ [] others (List.cons_ne_nil x block) hblock hothers
    rw [List.nil_append] at h
    rw [place, h]

end

end ManagedBlock
