import Kubespray.Lib.PyValue
import Mathlib.Algebra.Group.Nat.Defs
import Mathlib.Data.List.DropRight
import Std.Data.String.ToNat

/-!
# Python strings

The methods of `str` on Lean strings read as sequences of code points, slices of lists with a
possibly negative bound, and the decimal numbers `int` reads and `format` prints. The classes of
characters that `isdigit`, `isalpha`, `strip` and the pattern `\d` use come from the Unicode
database; they are a parameter (`CharTable`) with the facts every version of that database has,
and `CharTable.ascii` is its restriction to ASCII.
-/

namespace Py

/-- The character classes of a Unicode database. -/
structure CharTable where
  /-- `str.isdigit`. -/
  isdigit : Char → Bool
  /-- `str.isalpha`. -/
  isalpha : Char → Bool
  /-- The characters `str.strip` removes. -/
  isspace : Char → Bool
  /-- The value of a character that `\d` matches. -/
  decimal : Char → Option Nat
  /-- The ASCII digits are decimal digits. -/
  decimal_ascii : ∀ c : Char, c.isDigit = true → decimal c = some (c.toNat - '0'.toNat)
  /-- A decimal digit is a digit. -/
  isdigit_of_decimal : ∀ c, (decimal c).isSome = true → isdigit c = true
  /-- No letter is a digit. -/
  isdigit_of_isalpha : ∀ c, isalpha c = true → isdigit c = false
  /-- The ASCII characters of each class. -/
  ascii_class : ∀ c : Char, c.toNat < 128 → isdigit c = c.isDigit ∧ isalpha c = c.isAlpha

/-- Python's white space among the ASCII characters. -/
def isAsciiSpace (c : Char) : Bool :=
  c.toNat = 32 || (9 ≤ c.toNat && c.toNat ≤ 13) || (28 ≤ c.toNat && c.toNat ≤ 31)

theorem isAsciiSpace_eq_false {c : Char} (h : 33 ≤ c.toNat) : isAsciiSpace c = false := by
  have h₁ : c.toNat ≠ 32 := by omega
  have h₂ : ¬ c.toNat ≤ 13 := by omega
  have h₃ : ¬ c.toNat ≤ 31 := by omega
  simp [isAsciiSpace, h₁, h₂, h₃]

/-- The classes of the ASCII characters; every other character is in none. -/
def CharTable.ascii : CharTable where
  isdigit := Char.isDigit
  isalpha := Char.isAlpha
  isspace := isAsciiSpace
  decimal c := if c.isDigit then some (c.toNat - '0'.toNat) else none
  decimal_ascii c h := by simp [h]
  isdigit_of_decimal c h := by
    split at h
    · assumption
    · cases h
  isdigit_of_isalpha c h := by
    delta Char.isAlpha Char.isUpper Char.isLower Char.isDigit at h ⊢
    simp only [Bool.or_eq_true, Bool.and_eq_true, decide_eq_true_eq, Bool.and_eq_false_iff,
      decide_eq_false_iff_not, ge_iff_le, UInt32.le_iff_toNat_le] at h ⊢
    change (65 ≤ c.val.toNat ∧ c.val.toNat ≤ 90) ∨ (97 ≤ c.val.toNat ∧ c.val.toNat ≤ 122) at h
    show ¬ 48 ≤ c.val.toNat ∨ ¬ c.val.toNat ≤ 57
    omega
  ascii_class _ _ := ⟨rfl, rfl⟩

/-- The ASCII digits are digits. -/
theorem CharTable.isdigit_of_isDigit (tbl : CharTable) {c : Char} (h : c.isDigit = true) :
    tbl.isdigit c = true :=
  tbl.isdigit_of_decimal c (by rw [tbl.decimal_ascii c h]; rfl)

/-- No digit is an ASCII character that is not a digit. -/
theorem CharTable.ne_of_isdigit {tbl : CharTable} {c d : Char} (hc : tbl.isdigit c = true)
    (hd : d.toNat < 128) (hnd : d.isDigit = false) : c ≠ d := by
  rintro rfl
  rw [(tbl.ascii_class c hd).1, hnd] at hc
  cases hc

/-- No letter is an ASCII character that is not a letter. -/
theorem CharTable.ne_of_isalpha {tbl : CharTable} {c d : Char} (hc : tbl.isalpha c = true)
    (hd : d.toNat < 128) (hnd : d.isAlpha = false) : c ≠ d := by
  rintro rfl
  rw [(tbl.ascii_class c hd).2, hnd] at hc
  cases hc

/-! ## Methods of `str` -/

/-- `s.split(sep)` for a one-character separator. -/
def split (sep : Char) (s : String) : List String := (s.toList.splitOn sep).map String.ofList

/-- `s.startswith(p)`. -/
def startsWith (s p : String) : Bool := p.toList.isPrefixOf s.toList

/-- `s.endswith(p)`. -/
def endsWith (s p : String) : Bool := p.toList.isSuffixOf s.toList

/-- `s.strip()`. -/
def strip (tbl : CharTable) (s : String) : String :=
  String.ofList ((s.toList.dropWhile tbl.isspace).rdropWhile tbl.isspace)

/-- `s[1:]`. -/
def tail (s : String) : String := String.ofList s.toList.tail

/-- `str.lower` on ASCII characters. -/
def lowerAscii (s : String) : String := String.ofList (s.toList.map Char.toLower)

theorem lowerAscii_eq_empty (s : String) : lowerAscii s = "" ↔ s = "" := by
  rw [lowerAscii, ← String.toList_eq_nil_iff, String.toList_ofList, List.map_eq_nil_iff,
    String.toList_eq_nil_iff]

/-- The characters that end a line for `str.splitlines`. -/
def isLineBoundary (c : Char) : Bool :=
  (10 ≤ c.toNat && c.toNat ≤ 13) || (28 ≤ c.toNat && c.toNat ≤ 30) || c.toNat = 0x85 ||
    c.toNat = 0x2028 || c.toNat = 0x2029

/-- A text without the end of a line. -/
def OneLine (s : String) : Prop := ∀ c ∈ s.toList, isLineBoundary c = false

instance (s : String) : Decidable (OneLine s) := List.decidableBAll _ _

/-- `s.splitlines()`; a carriage return and the newline after it end one line. -/
def splitlines (s : String) : List String := (go s.toList).map String.ofList
where
  /-- The lines of a text. -/
  go : List Char → List (List Char)
    | [] => []
    | '\r' :: '\n' :: cs => [] :: go cs
    | c :: cs =>
      if isLineBoundary c then [] :: go cs
      else match go cs with
        | [] => [[c]]
        | l :: ls => (c :: l) :: ls

/-- Only the empty text has no lines. -/
theorem splitlines_eq_nil_iff {s : String} : splitlines s = [] ↔ s = "" := by
  have hgo : ∀ cs, splitlines.go cs = [] ↔ cs = [] := by
    intro cs
    fun_cases splitlines.go cs <;> simp_all
  rw [splitlines, List.map_eq_nil_iff, hgo, String.toList_eq_nil_iff]

theorem splitlines_of_oneLine {s : String} (hne : s ≠ "") (h : OneLine s) :
    splitlines s = [s] := by
  have hgo : ∀ cs, cs ≠ [] → (∀ c ∈ cs, isLineBoundary c = false) → splitlines.go cs = [cs] := by
    intro cs
    fun_induction splitlines.go cs with
    | case1 => exact fun hne _ => absurd rfl hne
    | case2 cs ih =>
      intro _ hcs
      cases hcs _ (.head _)
    | case3 c cs _ hc ih =>
      intro _ hcs
      rw [hcs c (.head _)] at hc
      cases hc
    | case4 c cs _ hc hnil ih =>
      intro _ hcs
      cases cs with
      | nil => rfl
      | cons d cs =>
        rw [ih (List.cons_ne_nil d cs) fun e he => hcs e (.tail _ he)] at hnil
        cases hnil
    | case5 c cs _ hc l ls hcons ih =>
      intro _ hcs
      cases cs with
      | nil => cases hcons
      | cons d cs =>
        rw [ih (List.cons_ne_nil d cs) fun e he => hcs e (.tail _ he)] at hcons
        cases hcons
        rfl
  rw [splitlines, hgo _ (mt String.toList_eq_nil_iff.1 hne) h, List.map_singleton,
    String.ofList_toList]

/-- Text without the separator is not split. -/
theorem split_of_not_mem {sep : Char} {s : String} (h : sep ∉ s.toList) : split sep s = [s] := by
  rw [split, List.splitOn_eq_singleton h]
  simp

/-- A name, the separator and the rest of the text split off the name. -/
theorem split_append {sep : Char} {s t : String} (h : sep ∉ s.toList) :
    split sep (s ++ String.singleton sep ++ t) = s :: split sep t := by
  simp only [split, String.toList_append, String.toList_singleton, List.append_assoc,
    List.singleton_append]
  rw [List.splitOn_append_cons_self_of_not_mem h]
  simp

/-- The parts between separators are of the list and have no separator. -/
theorem of_mem_splitOnP {α : Type} {p : α → Bool} {xs l : List α} (h : l ∈ xs.splitOnP p) :
    ∀ x ∈ l, x ∈ xs ∧ p x = false := by
  induction xs generalizing l with
  | nil =>
    rw [List.splitOnP_nil, List.mem_singleton] at h
    rw [h]
    exact nofun
  | cons x xs ih =>
    have hrest : ∀ {m}, m ∈ xs.splitOnP p → ∀ y ∈ m, y ∈ x :: xs ∧ p y = false :=
      fun hm y hy => ⟨.tail _ (ih hm y hy).1, (ih hm y hy).2⟩
    rw [List.splitOnP_cons_eq_if_modifyHead] at h
    split at h
    · rcases List.mem_cons.1 h with rfl | h
      · exact nofun
      · exact hrest h
    · next hx =>
      cases hxs : xs.splitOnP p with
      | nil => exact absurd hxs (List.splitOnP_ne_nil _ _)
      | cons m ms =>
        rw [hxs, List.modifyHead_cons] at h
        rcases List.mem_cons.1 h with rfl | h
        · exact List.forall_mem_cons.2
            ⟨⟨.head _, Bool.not_eq_true _ ▸ hx⟩, hrest (hxs ▸ .head _)⟩
        · exact hrest (hxs ▸ .tail _ h)

/-- The characters of the parts of a text are of the text and no separators. -/
theorem of_mem_split {sep c : Char} {s part : String} (h : part ∈ split sep s)
    (hc : c ∈ part.toList) : c ∈ s.toList ∧ c ≠ sep := by
  obtain ⟨l, hl, rfl⟩ := List.mem_map.1 h
  rw [String.toList_ofList] at hc
  rw [List.splitOn_eq_splitOnP] at hl
  simpa using of_mem_splitOnP hl c hc

/-- The parts of a text have no separator. -/
theorem not_mem_of_mem_split {sep : Char} {s part : String} (h : part ∈ split sep s) :
    sep ∉ part.toList :=
  fun hsep => (of_mem_split h hsep).2 rfl

/-- Joined parts are split again. -/
theorem split_intercalate {sep : Char} {parts : List String} (hne : parts ≠ [])
    (h : ∀ part ∈ parts, sep ∉ part.toList) :
    split sep ((String.singleton sep).intercalate parts) = parts := by
  rw [split, String.toList_intercalate, String.toList_singleton, List.splitOn_intercalate]
  · simp
  · simpa using h
  · simpa using hne

/-- Text is the parts between separators, joined again. -/
theorem intercalate_split (sep : Char) (s : String) :
    (String.singleton sep).intercalate (split sep s) = s := by
  rw [← String.toList_inj, String.toList_intercalate, String.toList_singleton, split, List.map_map]
  have hid : (String.toList ∘ String.ofList) = id := by
    funext l
    simp
  rw [hid, List.map_id, List.intercalate_splitOn]

/-- Text is split in two iff it is two texts around the only separator. -/
theorem split_eq_pair {sep : Char} {s a b : String} :
    split sep s = [a, b] ↔
      s = a ++ String.singleton sep ++ b ∧ sep ∉ a.toList ∧ sep ∉ b.toList := by
  constructor
  · intro h
    have hparts : ∀ part ∈ [a, b], sep ∉ part.toList :=
      fun part hpart => not_mem_of_mem_split (h ▸ hpart)
    refine ⟨?_, hparts a (.head _), hparts b (.tail _ (.head _))⟩
    rw [← intercalate_split sep s, h]
    rfl
  · rintro ⟨rfl, ha, hb⟩
    rw [split_append ha, split_of_not_mem hb]

/-- Text is not split iff it has no separator. -/
theorem split_eq_singleton {sep : Char} {s a : String} :
    split sep s = [a] ↔ s = a ∧ sep ∉ s.toList := by
  constructor
  · intro h
    have hparts : ∀ part ∈ [a], sep ∉ part.toList :=
      fun part hpart => not_mem_of_mem_split (h ▸ hpart)
    have hs : s = a := by
      rw [← intercalate_split sep s, h]
      rfl
    exact ⟨hs, hs ▸ hparts a (.head _)⟩
  · rintro ⟨rfl, h⟩
    exact split_of_not_mem h

/-- What stands in joined text is the separator or stands in one of the parts. -/
theorem mem_intercalate {α : Type} {sep x : α} {ls : List (List α)}
    (h : x ∈ [sep].intercalate ls) : x = sep ∨ ∃ l ∈ ls, x ∈ l := by
  induction ls with
  | nil => simp at h
  | cons l ls ih =>
    cases ls with
    | nil => exact .inr ⟨l, .head _, by simpa using h⟩
    | cons m ms =>
      rw [List.intercalate_cons_cons, List.append_assoc, List.mem_append, List.mem_append] at h
      rcases h with h | h | h
      · exact .inr ⟨l, .head _, h⟩
      · exact .inl (List.mem_singleton.1 h)
      · exact (ih h).imp_right fun ⟨k, hk, hx⟩ => ⟨k, .tail _ hk, hx⟩

/-- What stands in a text is the separator or stands in one of the parts between separators. -/
theorem eq_or_mem_of_split (sep : Char) {c : Char} {s : String} (h : c ∈ s.toList) :
    c = sep ∨ ∃ part ∈ split sep s, c ∈ part.toList := by
  have hs : [sep].intercalate (s.toList.splitOn sep) = s.toList := List.intercalate_splitOn _
  rw [← hs] at h
  refine (mem_intercalate h).imp_right fun ⟨l, hl, hc⟩ => ⟨String.ofList l, ?_, by simpa using hc⟩
  exact List.mem_map_of_mem hl

/-- `re.sub` of any of the characters `cs` by `d`. -/
def replaceChars (cs : List Char) (d : Char) (s : String) : String :=
  String.ofList (s.toList.map fun c => if c ∈ cs then d else c)

/-- Two replacements by the same character are one. -/
theorem replaceChars_replaceChars (cs ds : List Char) (d : Char) (s : String) :
    replaceChars ds d (replaceChars cs d s) = replaceChars (cs ++ ds) d s := by
  simp only [replaceChars, String.toList_ofList, List.map_map, String.ofList_inj]
  refine List.map_congr_left fun c _ => ?_
  by_cases hc : c ∈ cs <;> simp [hc]

/-- The texts are equal but for characters among `cs`. -/
def EqualUpTo (cs : List Char) (s t : String) : Prop :=
  List.Forall₂ (fun a b => a = b ∨ a ∈ cs ∧ b ∈ cs) s.toList t.toList

instance (cs : List Char) (s t : String) : Decidable (EqualUpTo cs s t) :=
  inferInstanceAs (Decidable (List.Forall₂ _ _ _))

/-- Two texts become the same iff they differ only in characters that become the same. -/
theorem replaceChars_eq_iff {cs : List Char} {d : Char} {s t : String} :
    replaceChars cs d s = replaceChars cs d t ↔ EqualUpTo (d :: cs) s t := by
  have hchar : ∀ a b : Char, (if a ∈ cs then d else a) = (if b ∈ cs then d else b) ↔
      a = b ∨ a ∈ d :: cs ∧ b ∈ d :: cs := by
    intro a b
    by_cases ha : a ∈ cs <;> by_cases hb : b ∈ cs
    · simp [ha, hb]
    · simp only [ha, hb, if_true, if_false, List.mem_cons, or_true, or_false, true_and]
      exact ⟨fun h => .inr h.symm, fun h => (h.resolve_left fun he => hb (he ▸ ha)).symm⟩
    · simp only [ha, hb, if_true, if_false, List.mem_cons, or_true, or_false, and_true]
      exact ⟨.inr, fun h => h.resolve_left fun he => ha (he ▸ hb)⟩
    · simp only [ha, hb, if_false, List.mem_cons, or_false]
      exact ⟨.inl, fun h => h.elim id fun h => h.1.trans h.2.symm⟩
  rw [replaceChars, replaceChars, String.ofList_inj, ← List.forall₂_eq_eq_eq,
    List.forall₂_map_left_iff, List.forall₂_map_right_iff]
  simp only [hchar]
  rfl

/-- What is dropped at the end stops at the last element that is not to be dropped. -/
theorem rdropWhile_append_cons {α : Type} {p : α → Bool} {x : α} (hx : p x = false)
    (l m : List α) : (l ++ x :: m).rdropWhile p = l ++ x :: m.rdropWhile p := by
  have hstop : (x :: l.reverse).dropWhile p = x :: l.reverse :=
    List.dropWhile_cons_of_neg (by simp [hx])
  rw [List.rdropWhile, List.rdropWhile, List.reverse_append, List.reverse_cons, List.append_assoc,
    List.singleton_append, List.dropWhile_append, hstop]
  split
  · next hempty =>
    rw [List.isEmpty_iff] at hempty
    simp [hempty]
  · simp

section
variable {tbl : CharTable} {s t : String} {c : Char}

/-- Text that does not start with white space is stripped at its end. -/
theorem strip_of_head (hs : s.toList.head? = some c) (hc : tbl.isspace c = false) :
    strip tbl s = String.ofList (s.toList.rdropWhile tbl.isspace) := by
  cases hl : s.toList with
  | nil =>
    rw [hl] at hs
    cases hs
  | cons d ds =>
    rw [hl] at hs
    cases hs
    rw [strip, hl, List.dropWhile_cons_of_neg (by simp [hc])]

/-- What is stripped from its end is white space. -/
theorem eq_strip_append (hs : s.toList.head? = some c) (hc : tbl.isspace c = false) :
    ∃ space, s = strip tbl s ++ space ∧ ∀ d ∈ space.toList, tbl.isspace d = true := by
  refine ⟨String.ofList (s.toList.rtakeWhile tbl.isspace), ?_, fun d hd => ?_⟩
  · rw [← String.toList_inj, strip_of_head hs hc, String.toList_append, String.toList_ofList,
      String.toList_ofList, List.rdropWhile_append_rtakeWhile]
  · rw [String.toList_ofList] at hd
    exact List.mem_rtakeWhile_imp hd

/-- Two texts around a character that is no white space. -/
theorem strip_append (hs : s.toList.head? = some c) (hc : tbl.isspace c = false) {d sep : Char}
    (ht : t.toList.head? = some d) (hd : tbl.isspace d = false) (hsep : tbl.isspace sep = false) :
    strip tbl (s ++ String.singleton sep ++ t) = s ++ String.singleton sep ++ strip tbl t := by
  have hhead : (s ++ String.singleton sep ++ t).toList.head? = some c := by
    cases hl : s.toList with
    | nil =>
      rw [hl] at hs
      cases hs
    | cons _ _ => simpa [hl] using hs
  rw [← String.toList_inj, strip_of_head hhead hc, strip_of_head ht hd]
  simp [rdropWhile_append_cons hsep]

end

/-- `a, b = s.split(sep, 1)`; `none` is its `ValueError`. -/
def splitOnce (sep : Char) (s : String) : Option (String × String) :=
  match s.toList.dropWhile (· ≠ sep) with
  | [] => none
  | _ :: rest => some (String.ofList (s.toList.takeWhile (· ≠ sep)), String.ofList rest)

/-- A name without the separator is split off. -/
theorem splitOnce_append {sep : Char} {s t : String} (h : sep ∉ s.toList) :
    splitOnce sep (s ++ String.singleton sep ++ t) = some (s, t) := by
  have hs : ∀ c ∈ s.toList, decide (c ≠ sep) = true :=
    fun c hc => decide_eq_true fun he : c = sep => h (he ▸ hc)
  simp only [splitOnce, String.toList_append, String.toList_singleton, List.append_assoc,
    List.singleton_append, List.dropWhile_append_of_pos hs, List.takeWhile_append_of_pos hs]
  simp

/-- Text without the separator is not split. -/
theorem splitOnce_of_not_mem {sep : Char} {s : String} (h : sep ∉ s.toList) :
    splitOnce sep s = none := by
  have hs : s.toList.dropWhile (· ≠ sep) = [] :=
    List.dropWhile_eq_nil_iff.2 fun c hc => decide_eq_true fun he : c = sep => h (he ▸ hc)
  rw [splitOnce, hs]

theorem ne_empty_of_mem {c : Char} {s : String} (h : c ∈ s.toList) : s ≠ "" := by
  rintro rfl
  simp at h

/-- Text with the separator is a name, the separator and the rest. -/
theorem exists_eq_append_of_mem {sep : Char} {s : String} (h : sep ∈ s.toList) :
    ∃ a b, s = a ++ String.singleton sep ++ b ∧ sep ∉ a.toList := by
  obtain ⟨as, bs, hs, hsep⟩ := List.eq_append_cons_of_mem h
  refine ⟨String.ofList as, String.ofList bs, ?_, by simpa using hsep⟩
  rw [← String.toList_inj, hs]
  simp

/-- What is split is two texts around the separator. -/
theorem eq_of_splitOnce {sep : Char} {s a b : String} (h : splitOnce sep s = some (a, b)) :
    s = a ++ String.singleton sep ++ b := by
  unfold splitOnce at h
  split at h
  · cases h
  · next c rest hrest =>
    cases h
    have hc : c = sep := by
      have hhead := List.head?_dropWhile_not (fun c => decide (c ≠ sep)) s.toList
      rw [hrest] at hhead
      simpa using hhead
    have hparts := List.takeWhile_append_dropWhile (p := fun c => decide (c ≠ sep)) (l := s.toList)
    rw [hrest, hc] at hparts
    rw [← String.toList_inj]
    simpa using hparts.symm

/-- Text around a separator is split in two there iff there is no other separator. -/
theorem split_append_eq_pair {sep : Char} {s t a b : String} :
    split sep (s ++ String.singleton sep ++ t) = [a, b] ↔
      (a = s ∧ b = t) ∧ sep ∉ s.toList ∧ sep ∉ t.toList := by
  rw [split_eq_pair]
  constructor
  · rintro ⟨he, ha, hb⟩
    have hcount := congrArg (fun u : String => u.toList.count sep) he
    simp only [String.toList_append, String.toList_singleton, List.count_append,
      List.count_singleton_self, List.count_eq_zero.2 ha, List.count_eq_zero.2 hb] at hcount
    have hs : sep ∉ s.toList := List.count_eq_zero.1 (by omega)
    have ht : sep ∉ t.toList := List.count_eq_zero.1 (by omega)
    have hsplit := congrArg (splitOnce sep) he
    rw [splitOnce_append hs, splitOnce_append ha] at hsplit
    cases hsplit
    exact ⟨⟨rfl, rfl⟩, hs, ht⟩
  · rintro ⟨⟨rfl, rfl⟩, hs, ht⟩
    exact ⟨rfl, hs, ht⟩

theorem startsWith_iff {s p : String} : startsWith s p = true ↔ p.toList <+: s.toList :=
  List.isPrefixOf_iff_prefix

/-- A concatenation starts with its first part. -/
@[simp] theorem startsWith_append (p s : String) : startsWith (p ++ s) p = true := by
  rw [startsWith_iff, String.toList_append]
  exact List.prefix_append _ _

/-- A concatenation ends with its last part. -/
@[simp] theorem endsWith_append (s p : String) : endsWith (s ++ p) p = true := by
  rw [endsWith, List.isSuffixOf_iff_suffix, String.toList_append]
  exact List.suffix_append _ _

/-! ## Numbers -/

/-- `int` of a string of decimal digits. -/
def CharTable.toNat (tbl : CharTable) (ds : List Char) : Nat :=
  ds.foldl (fun n c => 10 * n + (tbl.decimal c).getD 0) 0

/-- `re.findall("\\d+$", s)`: the decimal digits at the end of `s`, or before its last newline. -/
def CharTable.trailingDigits (tbl : CharTable) (s : String) : List (List Char) :=
  let body := if s.toList.getLast? = some '\n' then s.toList.dropLast else s.toList
  let ds := body.rtakeWhile fun c => (tbl.decimal c).isSome
  if ds = [] then [] else [ds]

section
variable {tbl : CharTable}

/-- The characters of a printed number are decimal digits. -/
theorem decimal_of_mem_toDigits {n : Nat} {c : Char} (h : c ∈ Nat.toDigits 10 n) :
    tbl.decimal c = some (c.toNat - '0'.toNat) :=
  tbl.decimal_ascii c (Nat.isDigit_of_mem_toDigits (by decide) (by decide) h)

/-- Reading digits after a number's own adds their value at the right place. -/
theorem foldl_decimal_toDigits (n m : Nat) :
    (Nat.toDigits 10 n).foldl (fun k c => 10 * k + (tbl.decimal c).getD 0) m =
      10 ^ (Nat.toDigits 10 n).length * m + n := by
  have hd : ∀ (ds : List Char) (k : Nat), (∀ c ∈ ds, c ∈ Nat.toDigits 10 n) →
      ds.foldl (fun k c => 10 * k + (tbl.decimal c).getD 0) k = Nat.ofDigitChars 10 ds k := by
    intro ds
    induction ds with
    | nil => intro k _; rfl
    | cons c ds ih =>
      intro k hc
      rw [List.foldl_cons, ih _ fun x hx => hc x (.tail _ hx), Nat.ofDigitChars_cons,
        decimal_of_mem_toDigits (hc c (.head _)), Option.getD_some]
  rw [hd _ _ fun _ h => h, Nat.ofDigitChars_eq_ofDigitChars_zero, Nat.ofDigitChars_ten_toDigits]

/-- `int` reads back a printed number, after the value of the digits in front of it. -/
theorem toNat_append_toDigits (ds : List Char) (n : Nat) :
    tbl.toNat (ds ++ Nat.toDigits 10 n) =
      10 ^ (Nat.toDigits 10 n).length * tbl.toNat ds + n := by
  rw [CharTable.toNat, List.foldl_append, foldl_decimal_toDigits]
  rfl

/-- The digits at the end of text followed by a printed number: those at the end of the text and
those of the number. -/
theorem rtakeWhile_append_toDigits (cs : List Char) (n : Nat) :
    (cs ++ Nat.toDigits 10 n).rtakeWhile (fun c => (tbl.decimal c).isSome) =
      cs.rtakeWhile (fun c => (tbl.decimal c).isSome) ++ Nat.toDigits 10 n := by
  have h : ∀ c ∈ (Nat.toDigits 10 n).reverse, (tbl.decimal c).isSome = true := by
    intro c hc
    rw [decimal_of_mem_toDigits (List.mem_reverse.1 hc)]
    rfl
  rw [List.rtakeWhile, List.reverse_append, List.takeWhile_append_of_pos h, List.reverse_append,
    List.reverse_reverse]
  rfl

/-- A printed number ends its text: its digits, after those the text before it ends in. -/
theorem trailingDigits_append_repr (s : String) (n : Nat) :
    tbl.trailingDigits (s ++ toString n) =
      [s.toList.rtakeWhile (fun c => (tbl.decimal c).isSome) ++ Nat.toDigits 10 n] := by
  have hl : (s ++ toString n).toList = s.toList ++ Nat.toDigits 10 n := by
    rw [String.toList_append, Nat.toString_eq_repr, Nat.toList_repr]
  have hlast : (s.toList ++ Nat.toDigits 10 n).getLast? ≠ some '\n' := by
    rw [List.getLast?_append_of_ne_nil _ Nat.toDigits_ne_nil]
    intro h
    have := Nat.isDigit_of_mem_toDigits (by decide) (by decide) (List.mem_of_getLast? h)
    exact absurd this (by decide)
  simp only [CharTable.trailingDigits, hl, if_neg hlast, rtakeWhile_append_toDigits]
  rw [if_neg (by simp [Nat.toDigits_ne_nil])]

end

/-- Two texts with one beginning and different numbers behind it differ. -/
theorem append_toString_injective {s : String} {m n : Nat} (h : s ++ toString m = s ++ toString n) :
    m = n := by
  have := congrArg String.toList h
  rw [String.toList_append, String.toList_append, List.append_cancel_left_eq] at this
  exact Nat.repr_injective (String.toList_injective this)

/-- A printed number has only digits. -/
theorem not_mem_toString {c : Char} (hc : c.isDigit = false) (n : Nat) :
    c ∉ (toString n).toList := by
  intro h
  rw [Nat.toString_eq_repr, Nat.toList_repr] at h
  rw [Nat.isDigit_of_mem_toDigits (by decide) (by decide) h] at hc
  cases hc

/-! ## Slices -/

/-- The position a slice bound `hi` stands for in a list of length `n`: a negative bound counts
from the end. -/
def sliceBound (n : Nat) (hi : Int) : Nat := if hi < 0 then (n + hi).toNat else hi.toNat

/-- `xs[lo:hi]` for `lo ≥ 0`. -/
def slice {α : Type} (xs : List α) (lo : Nat) (hi : Int) : List α :=
  (xs.take (sliceBound xs.length hi)).drop lo

/-- A slice with a bound that is not negative. -/
theorem slice_of_nonneg {α : Type} (xs : List α) (lo : Nat) {hi : Int} (h : 0 ≤ hi) :
    slice xs lo hi = (xs.take hi.toNat).drop lo := by
  rw [slice, sliceBound, if_neg (by omega)]

/-- The elements of a slice stand at its lower bound or after it. -/
theorem mem_of_mem_slice {α : Type} {xs : List α} {lo : Nat} {hi : Int} {x : α}
    (h : x ∈ slice xs lo hi) : x ∈ xs.drop lo := by
  rw [slice, List.drop_take] at h
  exact List.mem_of_mem_take h

/-- A slice has the order of the list. -/
theorem slice_sublist {α : Type} (xs : List α) (lo : Nat) (hi : Int) :
    (slice xs lo hi).Sublist xs :=
  (List.drop_sublist _ _).trans (List.take_sublist _ _)

end Py
