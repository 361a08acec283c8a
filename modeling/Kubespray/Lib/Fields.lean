import Kubespray.Lib.PyStr

/-!
# Fields of a line

A line as the fields between its blanks and tabs, however many stand between two of them: what `awk`
numbers, and how a configuration file with one entry a line is read.
-/

namespace Fields

/-- The characters between fields. -/
def isBlank (c : Char) : Bool := c == ' ' || c == '\t'

/-- The fields of a line. -/
def fields (line : String) : List String :=
  ((line.toList.splitOnP isBlank).filter (· ≠ [])).map String.ofList

/-- A text without blanks and tabs. -/
def Unbroken (s : String) : Prop := ∀ c ∈ s.toList, isBlank c = false

instance (s : String) : Decidable (Unbroken s) := List.decidableBAll _ _

variable {s t : String} {c : Char}

/-- A blank ends a field. -/
theorem fields_append_blank (hc : isBlank c = true) :
    fields (s ++ String.singleton c ++ t) = fields s ++ fields t := by
  simp only [fields, String.toList_append, String.toList_singleton, List.append_assoc,
    List.singleton_append, List.splitOnP_append_cons _ _ hc, List.filter_append, List.map_append]

@[simp] theorem fields_empty : fields "" = [] := rfl

/-- A text without blanks is one field. -/
theorem fields_unbroken (h : Unbroken s) (hne : s ≠ "") : fields s = [s] := by
  rw [fields, List.splitOnP_eq_singleton h, List.filter_cons_of_pos]
  · simp
  · simpa using hne

/-- Fields are not empty. -/
theorem ne_empty_of_mem_fields (h : s ∈ fields t) : s ≠ "" := by
  obtain ⟨l, hl, rfl⟩ := List.mem_map.1 h
  simpa using (List.mem_filter.1 hl).2

/-- A text that does not start with a blank starts with its first field. -/
theorem head?_fields (hs : s.toList.head? = some c) (hc : isBlank c = false) :
    ∃ t, (fields s).head? = some t ∧ t.toList.head? = some c := by
  obtain ⟨cs, hcs⟩ := List.head?_eq_some_iff.1 hs
  obtain ⟨l, ls, hl⟩ := List.exists_cons_of_ne_nil (List.splitOnP_ne_nil isBlank cs)
  refine ⟨String.ofList (c :: l), ?_, by simp⟩
  rw [fields, hcs, List.splitOnP_cons_eq_if_modifyHead, hc, hl]
  simp

/-- Texts joined by blanks are the fields again, but for the empty ones. -/
theorem fields_intercalate {ts : List String} (h : ∀ t ∈ ts, Unbroken t) :
    fields (" ".intercalate ts) = ts.filter (· ≠ "") := by
  induction ts with
  | nil => rfl
  | cons t ts ih =>
    have hrest := ih fun s hs => h s (.tail _ hs)
    have hone : fields t = [t].filter (· ≠ "") := by
      by_cases ht : t = ""
      · simp [ht]
      · simp [fields_unbroken (h t (.head _)) ht, ht]
    cases ts with
    | nil => simpa using hone
    | cons u ts =>
      have hsplit : (t :: u :: ts).filter (· ≠ "") =
          fields t ++ fields (" ".intercalate (u :: ts)) := by
        rw [hrest, hone, ← List.filter_append]
        rfl
      rw [String.intercalate_cons_cons, hsplit]
      exact @fields_append_blank t (" ".intercalate (u :: ts)) ' ' rfl

end Fields
