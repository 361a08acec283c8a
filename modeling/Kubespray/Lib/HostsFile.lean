import Kubespray.Lib.Fields

/-!
# Hosts files

A line of a hosts file is an address and its names, with a comment after them. A name is looked up
on the first line that has it (`lookupHost`), so lines without it make no difference around the
others (`lookupHost_between`). `HostsWord` is what can be written as a word.
-/

namespace HostsFile

/-- `s` up to its first `#`. -/
def withoutComment (s : String) : String := String.ofList (s.toList.takeWhile (· ≠ '#'))

/-- The words of a line, before its comment. -/
def hostsWords (line : String) : List String := Fields.fields (withoutComment line)

/-- The address of a line. -/
def addressOf (line : String) : Option String := (hostsWords line).head?

/-- The names on a line. -/
def namesOf (line : String) : List String := (hostsWords line).tail

/-- The name stands on the line; `key` says how names are compared. -/
def shows (key : String → String) (n line : String) : Bool :=
  (namesOf line).any fun m => key m = key n

/-- The address of a name, from the first line that has it. -/
def lookupHost (key : String → String) (lines : List String) (n : String) : Option String :=
  (lines.find? (shows key n)).bind addressOf

/-- A word of a hosts file. -/
@[ext]
structure HostsWord where
  text : String
  ne_empty : text ≠ "" := by decide
  unbroken : Fields.Unbroken text := by decide
  no_comment : '#' ∉ text.toList := by decide
  one_line : Py.OneLine text := by decide

instance : DecidableEq HostsWord :=
  fun _ _ => decidable_of_iff _ HostsWord.ext_iff.symm

theorem of_mem_dot {s t : String} {c : Char} (hc : c ∈ (s ++ "." ++ t).toList) :
    c ∈ s.toList ∨ c = '.' ∨ c ∈ t.toList := by
  simpa [or_assoc] using hc

/-- A name and a domain. -/
def HostsWord.dot (name domain : HostsWord) : HostsWord where
  text := name.text ++ "." ++ domain.text
  ne_empty h := by
    have := congrArg String.toList h
    simp at this
  unbroken c hc := by
    rcases of_mem_dot hc with hc | rfl | hc
    · exact name.unbroken c hc
    · rfl
    · exact domain.unbroken c hc
  no_comment hc := by
    rcases of_mem_dot hc with hc | hc | hc
    · exact name.no_comment hc
    · cases hc
    · exact domain.no_comment hc
  one_line c hc := by
    rcases of_mem_dot hc with hc | rfl | hc
    · exact name.one_line c hc
    · rfl
    · exact domain.one_line c hc

/-! ## Words -/

theorem withoutComment_of_not_mem {s : String} (h : '#' ∉ s.toList) : withoutComment s = s := by
  rw [withoutComment, List.takeWhile_eq_self_iff.2, String.ofList_toList]
  intro c hc
  exact decide_eq_true fun heq => h (heq ▸ hc)

theorem fields_word (w : HostsWord) : Fields.fields w.text = [w.text] :=
  Fields.fields_unbroken w.unbroken w.ne_empty

theorem fields_word_append (w : HostsWord) (t : String) :
    Fields.fields (w.text ++ " " ++ t) = w.text :: Fields.fields t := by
  have h := @Fields.fields_append_blank w.text t ' ' rfl
  rwa [fields_word] at h

/-! ## Looking up -/

section
variable {key : String → String} {lines before after : List String} {n : String}

theorem shows_iff {line : String} :
    shows key n line = true ↔ ∃ m ∈ namesOf line, key m = key n := by
  simp [shows]

/-- A name is looked up past the lines without it. -/
theorem lookupHost_append (h : ∀ line ∈ before, shows key n line = false) :
    lookupHost key (before ++ lines) n = lookupHost key lines n := by
  have hnone : before.find? (shows key n) = none :=
    List.find?_eq_none.2 fun line hline => by simp [h line hline]
  rw [lookupHost, List.find?_append, hnone, Option.none_or]
  rfl

/-- The lines around those that have the name make no difference. -/
theorem lookupHost_between (hbefore : ∀ line ∈ before, shows key n line = false)
    (hafter : ∀ line ∈ after, shows key n line = false) :
    lookupHost key (before ++ (lines ++ after)) n = lookupHost key lines n := by
  have hnone : after.find? (shows key n) = none :=
    List.find?_eq_none.2 fun line hline => by simp [hafter line hline]
  rw [lookupHost_append hbefore, lookupHost, List.find?_append, hnone, Option.or_none]
  rfl

end

end HostsFile
