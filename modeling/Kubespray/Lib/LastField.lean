import Kubespray.Lib.PyStr

/-!
# The last field of a text

The parts of a text before and after the last occurrence of a separator, as the regular expressions
`^(.*)/.*$` and `^.*/(.*)$` find them, whose first `.*` takes as much as it can.
-/

namespace Py

/-- The text after the last separator, or all of it. -/
def afterLast (sep : Char) (s : String) : String :=
  String.ofList (s.toList.reverse.takeWhile (· ≠ sep)).reverse

/-- The text before the last separator, or all of it. -/
def beforeLast (sep : Char) (s : String) : String :=
  if sep ∈ s.toList then String.ofList (s.toList.reverse.dropWhile (· ≠ sep)).tail.reverse else s

/-- Both parts around the separator are the text. -/
theorem beforeLast_append_afterLast {sep : Char} {s : String} (h : sep ∈ s.toList) :
    beforeLast sep s ++ String.singleton sep ++ afterLast sep s = s := by
  obtain ⟨c, rest, hdrop⟩ : ∃ c rest, s.toList.reverse.dropWhile (· ≠ sep) = c :: rest := by
    refine List.exists_cons_of_ne_nil fun hnil => ?_
    have hall := List.dropWhile_eq_nil_iff.1 hnil sep (List.mem_reverse.2 h)
    exact of_decide_eq_true hall rfl
  have hc : c = sep := by
    have hhead := List.head?_dropWhile_not (fun c => decide (c ≠ sep)) s.toList.reverse
    rw [hdrop] at hhead
    simpa using hhead
  have hparts := List.takeWhile_append_dropWhile (p := fun c => decide (c ≠ sep))
    (l := s.toList.reverse)
  rw [hdrop, hc] at hparts
  have hs := congrArg List.reverse hparts
  rw [List.reverse_reverse] at hs
  rw [beforeLast, if_pos h, hdrop, afterLast, ← String.toList_inj]
  simpa using hs

end Py
