import Kubespray.Lib.Grep
import Kubespray.Lib.HostsFile
import Kubespray.Lib.LastMatch
import Kubespray.Lib.OrdDict
import Kubespray.Lib.Unique

/-!
# The localhost lines of the hosts file

`roles/kubernetes/preinstall/tasks/0090-etchosts.yml`: the names of the localhost lines of
`/etc/hosts` are collected in a dictionary, combined with `etc_hosts_localhost_entries` and written
back with `lineinfile`. The three steps look for a line of an address in three ways: the first one
wants one blank after it, the second one reads the first word, and the third one takes every line
that begins with it. `localhost_entries_iff` says for which files nothing is lost.
-/

open HostsFile (withoutComment hostsWords addressOf namesOf)
open Py (lowerAscii lowerAscii_eq_empty)
open Unique (uniqueBy uniqueBy_spec)

namespace Kubespray

/-! ## The tasks -/

/-- A key of `etc_hosts_localhost_entries`. -/
inductive LocalhostAddress where
  | v4 | v6
  deriving DecidableEq, Repr

def LocalhostAddress.text : LocalhostAddress → String
  | .v4 => "127.0.0.1"
  | .v6 => "::1"

/-- A value of `etc_hosts_localhost_entries`. -/
structure LocalhostEntry where
  expected : List String
  /-- `unexpected`, by default empty. -/
  unexpected : List String := []
  /-- The expected names can be written on a line. -/
  expected_names : ∀ n ∈ expected, n ≠ "" ∧ Fields.Unbroken n ∧ '#' ∉ n.toList

/-- `etc_hosts_localhost_entries`. -/
abbrev LocalhostEntries := OrdDict LocalhostAddress LocalhostEntry

/-- `[ \t]+` replaced by a blank; the flag says that the character before was blank. -/
def squeezeFrom : Bool → List Char → List Char
  | _, [] => []
  | before, c :: cs =>
    if Fields.isBlank c then
      if before then squeezeFrom true cs else ' ' :: squeezeFrom true cs
    else c :: squeezeFrom false cs

/-- `regex_replace('[ \t]+', ' ')`. -/
def squeezeBlanks (s : String) : String := String.ofList (squeezeFrom false s.toList)

/-- `splitted`; `regex_replace('#.*$')` takes the comment away. -/
def splitted (tbl : Py.CharTable) (item : String) : List String :=
  Py.split ' ' (Py.strip tbl (withoutComment (squeezeBlanks item)))

/-- The item matches `^::1 .*` or `^127.0.0.1 .*`. -/
def isLocalhostItem (item : String) : Bool :=
  Grep.matchesAt "::1 ".toList item.toList || Grep.matchesAt "127.0.0.1 ".toList item.toList

/-- The items of the loop over the content of the file. -/
def hostsItems (lines : List String) : List String := lines.flatMap Py.splitlines

/-- `etc_hosts_localhosts_dict`. -/
def localhostsDict (tbl : Py.CharTable) (items : List String) : List (String × List String) :=
  (items.filter isLocalhostItem).foldl (fun dict item =>
    Assoc.insert ((splitted tbl item).headD "") (splitted tbl item).tail dict) []

/-- A value of `etc_hosts_localhosts_dict_target`. The filter `unique` compares in lower case, and
`difference` does not. -/
def targetNames (lower : String → String) (dict : List (String × List String))
    (a : LocalhostAddress) (e : LocalhostEntry) : List String :=
  let existing := (Assoc.lookup a.text dict).getD []
  uniqueBy lower (uniqueBy id (existing.filter (· ∉ e.unexpected)) ++ e.expected)

/-- The `line` of `lineinfile`. -/
def hostsLine (a : LocalhostAddress) (names : List String) : String :=
  a.text ++ " " ++ " ".intercalate names

/-- The `regexp` of `lineinfile`. -/
def LocalhostAddress.selects (a : LocalhostAddress) (line : String) : Bool :=
  Grep.matchesAt a.text.toList line.toList

/-- `Update (if necessary) hosts file`, for one item. -/
def updateHostsLine (lower : String → String) (dict : List (String × List String))
    (lines : List String) (entry : LocalhostAddress × LocalhostEntry) : List String :=
  LastMatch.replaceLast entry.1.selects
    (hostsLine entry.1 (targetNames lower dict entry.1 entry.2)) lines

/-- The lines of `/etc/hosts` after the three tasks. -/
def updateHosts (tbl : Py.CharTable) (lower : String → String) (entries : LocalhostEntries)
    (lines : List String) : List String :=
  entries.items.foldl (updateHostsLine lower (localhostsDict tbl (hostsItems lines))) lines

/-! ## What a hosts file says -/

/-- The name stands on a line of the address. Names are compared in lower case. -/
def MapsTo (lower : String → String) (lines : List String) (a : LocalhostAddress) (n : String) :
    Prop :=
  ∃ line ∈ lines, addressOf line = some a.text ∧ ∃ m ∈ namesOf line, lower m = lower n

/-- The line is of neither address. -/
def isOther (line : String) : Bool :=
  addressOf line ≠ some LocalhostAddress.v4.text ∧ addressOf line ≠ some LocalhostAddress.v6.text

/-- The names mapped before still are or are unexpected, those expected are, and the lines of other
addresses are the same. -/
def NothingLost (lower : String → String) (entries : LocalhostEntries)
    (lines lines' : List String) : Prop :=
  (∀ a n, MapsTo lower lines a n →
    (∃ e, entries.get? a = some e ∧ ∃ u ∈ e.unexpected, lower u = lower n) ∨
      MapsTo lower lines' a n) ∧
  (∀ a e, entries.get? a = some e → ∀ n ∈ e.expected, MapsTo lower lines' a n) ∧
  lines'.filter isOther = lines.filter isOther

/-- The last item that begins with the address and a blank. -/
def lastItem (a : LocalhostAddress) (items : List String) : Option String :=
  items.reverse.find? fun item => (a.text ++ " ").toList.isPrefixOf item.toList

/-- The last line that begins with the address is of this address, and each of its names is expected
or unexpected, or read from the last item with a blank after the address, or on another line of the
address. -/
def LinesAgree (tbl : Py.CharTable) (lower : String → String) (lines : List String)
    (a : LocalhostAddress) (e : LocalhostEntry) : Prop :=
  ∀ before line after, LastMatch.splitLast a.selects lines = some (before, line, after) →
    addressOf line = some a.text ∧ ∀ n ∈ namesOf line,
      (∃ m ∈ e.expected ++ e.unexpected, lower m = lower n) ∨
      (∃ item, lastItem a (hostsItems lines) = some item ∧
        ∃ m ∈ (splitted tbl item).tail, lower m = lower n) ∨
      MapsTo lower (before ++ after) a n

/-! ## Reading an item -/

section
variable {tbl : Py.CharTable} {a b : LocalhostAddress} {item line : String} {c : Char}

theorem squeezeFrom_append {ks : List Char} (hk : ∀ c ∈ ks, Fields.isBlank c = false)
    (cs : List Char) : squeezeFrom false (ks ++ cs) = ks ++ squeezeFrom false cs := by
  induction ks with
  | nil => rfl
  | cons k ks ih =>
    rw [List.forall_mem_cons] at hk
    rw [List.cons_append, squeezeFrom, if_neg (by simp [hk.1]), ih hk.2, List.cons_append]

/-- A text without blanks in front of the squeezed text was in front before. -/
theorem prefix_of_prefix_squeezeFrom {ks cs : List Char}
    (hk : ∀ c ∈ ks, Fields.isBlank c = false) (h : ks <+: squeezeFrom false cs) : ks <+: cs := by
  induction ks generalizing cs with
  | nil => exact List.nil_prefix
  | cons k ks ih =>
    rw [List.forall_mem_cons] at hk
    cases cs with
    | nil => cases List.prefix_nil.1 h
    | cons c cs =>
      rw [squeezeFrom] at h
      split at h
      · rw [if_neg Bool.false_ne_true, List.cons_prefix_cons] at h
        rw [h.1] at hk
        cases hk.1
      · rw [List.cons_prefix_cons] at h ⊢
        exact ⟨h.1, ih hk.2 h.2⟩

/-- No tabs are left, and of the rest every character was there. -/
theorem of_mem_squeezeFrom {before : Bool} {cs : List Char} (h : c ∈ squeezeFrom before cs) :
    c = ' ' ∨ Fields.isBlank c = false := by
  induction cs generalizing before with
  | nil => cases h
  | cons d ds ih =>
    rw [squeezeFrom] at h
    split at h
    · split at h
      · exact ih h
      · rcases List.mem_cons.1 h with rfl | h
        · exact .inl rfl
        · exact ih h
    · next hd =>
      rcases List.mem_cons.1 h with rfl | h
      · exact .inr (Bool.eq_false_iff.2 hd)
      · exact ih h

/-- The words of an item can be written on a line. -/
theorem of_mem_splitted {w : String} (h : w ∈ splitted tbl item) :
    Fields.Unbroken w ∧ '#' ∉ w.toList := by
  have hchar : ∀ c ∈ w.toList, c ∈ squeezeFrom false item.toList ∧ c ≠ '#' ∧ c ≠ ' ' := by
    intro c hc
    obtain ⟨hstrip, hblank⟩ := Py.of_mem_split h hc
    rw [Py.strip, withoutComment, String.toList_ofList, String.toList_ofList] at hstrip
    have htake := (List.dropWhile_suffix _).subset ((List.rdropWhile_prefix _ _).subset hstrip)
    rw [squeezeBlanks, String.toList_ofList] at htake
    exact ⟨(List.takeWhile_prefix _).subset htake, by simpa using List.mem_takeWhile_imp htake,
      hblank⟩
  refine ⟨fun c hc => ?_, fun hc => (hchar _ hc).2.1 rfl⟩
  exact (of_mem_squeezeFrom (hchar c hc).1).resolve_left (hchar c hc).2.2

/-- The characters of an address are no blanks, no white space and no comments. -/
theorem LocalhostAddress.of_mem_text
    (hspace : ∀ c : Char, c.toNat < 128 → tbl.isspace c = Py.isAsciiSpace c)
    (h : c ∈ a.text.toList) : Fields.isBlank c = false ∧ tbl.isspace c = false ∧ c ≠ '#' := by
  have hall : a.text.toList.all (fun c => !Fields.isBlank c && decide (c.toNat < 128) &&
      !Py.isAsciiSpace c && c != '#') = true := by
    cases a <;> decide
  have hc := List.all_eq_true.1 hall c h
  simp only [Bool.and_eq_true, Bool.not_eq_true', decide_eq_true_eq, bne_iff_ne] at hc
  exact ⟨hc.1.1.1, (hspace c hc.1.1.2).trans hc.1.2, hc.2⟩

/-- An address ends in a one. -/
theorem LocalhostAddress.text_eq (a : LocalhostAddress) :
    ∃ cs, a.text.toList = cs ++ ['1'] := by
  cases a
  · exact ⟨"127.0.0.".toList, by decide⟩
  · exact ⟨"::".toList, by decide⟩

/-- The first word of an item that begins with an address and a blank is the address. -/
theorem head?_splitted (hspace : ∀ c : Char, c.toNat < 128 → tbl.isspace c = Py.isAsciiSpace c)
    (h : (a.text ++ " ").toList <+: item.toList) : (splitted tbl item).head? = some a.text := by
  have htext : ∀ c ∈ a.text.toList, Fields.isBlank c = false ∧ tbl.isspace c = false ∧ c ≠ '#' :=
    fun c hc => LocalhostAddress.of_mem_text hspace hc
  obtain ⟨rest, hrest⟩ := h
  obtain ⟨cs, hcs⟩ := a.text_eq
  have hone : tbl.isspace '1' = false := (htext '1' (by rw [hcs]; simp)).2.1
  -- the text before a comment begins with the address and a blank
  have hcut : ∃ m, (withoutComment (squeezeBlanks item)).toList = a.text.toList ++ ' ' :: m := by
    refine ⟨(squeezeFrom true rest).takeWhile (· ≠ '#'), ?_⟩
    have hitem : item.toList = a.text.toList ++ ' ' :: rest := by
      rw [← hrest]
      simp
    rw [withoutComment, squeezeBlanks, String.toList_ofList, String.toList_ofList, hitem,
      squeezeFrom_append fun c hc => (htext c hc).1,
      List.takeWhile_append_of_pos fun c hc => decide_eq_true (htext c hc).2.2]
    rfl
  obtain ⟨m, hm⟩ := hcut
  have hhead : ∃ c, (withoutComment (squeezeBlanks item)).toList.head? = some c ∧
      c ∈ a.text.toList := by
    cases hl : a.text.toList with
    | nil =>
      rw [hl] at hcs
      simp at hcs
    | cons c l =>
      rw [hm, hl]
      exact ⟨c, rfl, .head _⟩
  obtain ⟨c, hc, hmem⟩ := hhead
  rw [splitted, Py.strip_of_head hc (htext c hmem).2.1, hm, hcs, List.append_assoc,
    List.singleton_append, Py.rdropWhile_append_cons hone, ← List.singleton_append,
    ← List.append_assoc, ← hcs]
  have hblank : ' ' ∉ a.text.toList := fun hin => by cases (htext ' ' hin).1
  have hspaces := List.rdropWhile_prefix tbl.isspace (' ' :: m)
  rcases List.prefix_cons_iff.1 hspaces with hnil | ⟨t, ht, -⟩
  · rw [hnil, List.append_nil, String.ofList_toList, Py.split_of_not_mem hblank]
    rfl
  · have htext : String.ofList (a.text.toList ++ ' ' :: t) =
        a.text ++ String.singleton ' ' ++ String.ofList t := by
      simp [← String.toList_inj]
    rw [ht, htext, Py.split_append hblank]
    rfl

/-- The first word of an item is in front of it, blanks apart. -/
theorem head?_splitted_squeezed {w : String} (hc : item.toList.head? = some c)
    (hblank : Fields.isBlank c = false) (hspace : tbl.isspace c = false) (hcomment : c ≠ '#')
    (hw : (splitted tbl item).head? = some w) : w.toList <+: squeezeFrom false item.toList := by
  obtain ⟨cs, hcs⟩ := List.head?_eq_some_iff.1 hc
  have hhead : (withoutComment (squeezeBlanks item)).toList.head? = some c := by
    rw [withoutComment, squeezeBlanks, String.toList_ofList, String.toList_ofList, hcs, squeezeFrom,
      if_neg (by simp [hblank]), List.takeWhile_cons_of_pos (by simp [hcomment])]
    rfl
  rw [splitted, Py.strip_of_head hhead hspace] at hw
  have hpre : (withoutComment (squeezeBlanks item)).toList.rdropWhile tbl.isspace <+:
      squeezeFrom false item.toList := by
    refine (List.rdropWhile_prefix _ _).trans ?_
    rw [withoutComment, squeezeBlanks, String.toList_ofList, String.toList_ofList]
    exact List.takeWhile_prefix _
  refine List.IsPrefix.trans ?_ hpre
  generalize hl : (withoutComment (squeezeBlanks item)).toList.rdropWhile tbl.isspace = l at hw
  by_cases hsep : ' ' ∈ (String.ofList l).toList
  · obtain ⟨first, rest, heq, hfirst⟩ := Py.exists_eq_append_of_mem hsep
    rw [heq, Py.split_append hfirst] at hw
    cases hw
    have hlist := congrArg String.toList heq
    rw [String.toList_ofList] at hlist
    rw [hlist, String.toList_append, String.toList_append, List.append_assoc]
    exact List.prefix_append _ _
  · rw [Py.split_of_not_mem hsep] at hw
    cases hw
    rw [String.toList_ofList]

/-- The addresses differ in the first character, which is no dot. -/
theorem LocalhostAddress.head?_text (a : LocalhostAddress) :
    a.text.toList.head? = some (match a with | .v4 => '1' | .v6 => ':') := by
  cases a <;> rfl

theorem LocalhostAddress.eq_of_head? (h : a.text.toList.head? = b.text.toList.head?) : a = b := by
  rw [head?_text, head?_text] at h
  cases a <;> cases b <;> first | rfl | cases h

/-- What begins with an address, dots apart, has its first character. -/
theorem LocalhostAddress.head?_of_matchesAt {ks cs : List Char}
    (h : Grep.matchesAt (a.text.toList ++ ks) cs = true) :
    cs.head? = a.text.toList.head? := by
  obtain ⟨d, l, hd, hdot⟩ : ∃ d l, a.text.toList = d :: l ∧ d ≠ '.' := by
    cases a
    · exact ⟨'1', _, rfl, by decide⟩
    · exact ⟨':', _, rfl, by decide⟩
  cases cs with
  | nil =>
    rw [hd] at h
    cases h
  | cons c cs =>
    rw [hd, List.cons_append, Grep.matchesAt, Bool.and_eq_true, Bool.or_eq_true, beq_iff_eq,
      beq_iff_eq] at h
    rw [hd, h.1.resolve_left hdot]
    rfl

/-- The items that the loop takes. -/
theorem isLocalhostItem_iff : isLocalhostItem item = true ↔
    ∃ a : LocalhostAddress, Grep.matchesAt (a.text ++ " ").toList item.toList = true := by
  rw [isLocalhostItem, Bool.or_eq_true]
  constructor
  · rintro (h | h)
    · exact ⟨.v6, h⟩
    · exact ⟨.v4, h⟩
  · rintro ⟨a, h⟩
    cases a
    · exact .inr h
    · exact .inl h

/-- An item that the loop takes goes to an address iff it begins with it and a blank. -/
theorem head?_splitted_iff
    (hspace : ∀ c : Char, c.toNat < 128 → tbl.isspace c = Py.isAsciiSpace c)
    (hitem : isLocalhostItem item = true) :
    (splitted tbl item).head? = some a.text ↔ (a.text ++ " ").toList <+: item.toList := by
  refine ⟨fun hhead => ?_, head?_splitted hspace⟩
  obtain ⟨b, hmatch⟩ := isLocalhostItem_iff.1 hitem
  rw [String.toList_append] at hmatch
  have hfirst := LocalhostAddress.head?_of_matchesAt hmatch
  have hd := LocalhostAddress.of_mem_text hspace (List.mem_of_head? b.head?_text)
  have hpre : a.text.toList <+: item.toList :=
    prefix_of_prefix_squeezeFrom (fun c hc => (LocalhostAddress.of_mem_text hspace hc).1)
      (head?_splitted_squeezed (hfirst.trans b.head?_text) hd.1 hd.2.1 hd.2.2 hhead)
  have hab : a = b := by
    obtain ⟨t, ht⟩ := hpre
    refine LocalhostAddress.eq_of_head? (hfirst.symm.trans ?_).symm
    rw [← ht, List.head?_append, a.head?_text]
    rfl
  subst hab
  obtain ⟨text, rest, hrest, htext⟩ := Grep.matchesAt_iff.1 hmatch
  obtain ⟨u, v, rfl, hu, hv⟩ := Grep.forall₂_append_left htext
  have hblank : v = [' '] := by
    have hchars : " ".toList = [' '] := rfl
    rw [hchars] at hv
    obtain ⟨c, w, hc, hw, rfl⟩ := List.forall₂_cons_left_iff.1 hv
    cases hw
    rw [← hc.resolve_left (by decide)]
  have heq : a.text.toList = u := by
    rw [← hrest, List.append_assoc] at hpre
    have hlength := hu.length_eq
    exact (List.prefix_of_prefix_length_le hpre (List.prefix_append _ _) hlength.le).eq_of_length
      hlength
  rw [← hrest, hblank, ← heq, String.toList_append]
  exact List.prefix_append _ _

/-- The dictionary has the words of the last item that begins with the address and a blank. -/
theorem lookup_localhostsDict
    (hspace : ∀ c : Char, c.toNat < 128 → tbl.isspace c = Py.isAsciiSpace c)
    (a : LocalhostAddress) (items : List String) :
    Assoc.lookup a.text (localhostsDict tbl items) =
      (lastItem a items).map fun item => (splitted tbl item).tail := by
  induction items using List.reverseRecOn with
  | nil => rfl
  | append_singleton items item ih =>
    rw [lastItem, List.reverse_append, List.reverse_singleton, List.singleton_append,
      List.find?_cons, localhostsDict, List.filter_append, List.foldl_append]
    rw [localhostsDict] at ih
    rw [lastItem] at ih
    cases hitem : isLocalhostItem item with
    | false =>
      have hno : (a.text ++ " ").toList.isPrefixOf item.toList = false := by
        rw [Bool.eq_false_iff]
        intro hpre
        obtain ⟨rest, hrest⟩ := List.isPrefixOf_iff_prefix.1 hpre
        have hmatch := Grep.matchesAt_append (a.text ++ " ").toList rest
        rw [hrest] at hmatch
        rw [isLocalhostItem_iff.2 ⟨a, hmatch⟩] at hitem
        cases hitem
      rw [hno, List.filter_cons_of_neg (by simp [hitem])]
      exact ih
    | true =>
      rw [List.filter_cons_of_pos hitem, List.filter_nil, List.foldl_cons, List.foldl_nil,
        Assoc.lookup_insert]
      have hkey : (splitted tbl item).headD "" = a.text ↔
          (a.text ++ " ").toList.isPrefixOf item.toList = true := by
        rw [List.isPrefixOf_iff_prefix, ← head?_splitted_iff hspace hitem]
        cases splitted tbl item with
        | nil =>
          have hne : "" ≠ a.text := by cases a <;> decide
          simp [hne]
        | cons w ws => simp
      cases hpre : (a.text ++ " ").toList.isPrefixOf item.toList with
      | true => rw [if_pos (hkey.2 hpre), Option.map_some]
      | false => rw [if_neg (mt hkey.1 (Bool.eq_false_iff.1 hpre)), ih]

end

/-! ## The line that is written -/

section
variable {lower key : String → String} {dict : List (String × List String)}
  {a b : LocalhostAddress} {e : LocalhostEntry} {l names lines : List String} {n w line : String}

/-- The names that are written. -/
theorem of_mem_targetNames (h : w ∈ targetNames lower dict a e) :
    w ∈ (Assoc.lookup a.text dict).getD [] ∨ w ∈ e.expected := by
  refine (List.mem_append.1 ((uniqueBy_spec _ _).1 w h)).imp_left fun hw => ?_
  exact (List.mem_filter.1 ((uniqueBy_spec _ _).1 w hw)).1

/-- A name is written iff it was read and is not unexpected, or is expected. -/
theorem exists_mem_targetNames : (∃ w ∈ targetNames lower dict a e, lower w = lower n) ↔
    (∃ w ∈ (Assoc.lookup a.text dict).getD [], w ∉ e.unexpected ∧ lower w = lower n) ∨
      ∃ w ∈ e.expected, lower w = lower n := by
  constructor
  · rintro ⟨w, hw, hlower⟩
    rcases List.mem_append.1 ((uniqueBy_spec _ _).1 w hw) with hw | hw
    · have hmem := List.mem_filter.1 ((uniqueBy_spec _ _).1 w hw)
      exact .inl ⟨w, hmem.1, of_decide_eq_true hmem.2, hlower⟩
    · exact .inr ⟨w, hw, hlower⟩
  · have hkept : ∀ x, x ∈ uniqueBy id (((Assoc.lookup a.text dict).getD []).filter
        (· ∉ e.unexpected)) ++ e.expected → lower x = lower n →
          ∃ w ∈ targetNames lower dict a e, lower w = lower n := by
      intro x hx hlower
      obtain ⟨w, hw, hkey⟩ := (uniqueBy_spec lower _).2 x hx
      exact ⟨w, hw, hkey.trans hlower⟩
    rintro (⟨w, hw, hexp, hlower⟩ | ⟨w, hw, hlower⟩)
    · obtain ⟨x, hx, rfl⟩ := (uniqueBy_spec id (((Assoc.lookup a.text dict).getD []).filter
        (· ∉ e.unexpected))).2 w (List.mem_filter.2 ⟨hw, decide_eq_true hexp⟩)
      exact hkept x (List.mem_append_left _ hx) hlower
    · exact hkept w (List.mem_append_right _ hw) hlower

/-- The words of the line that is written. -/
theorem hostsWords_hostsLine (h : ∀ w ∈ names, Fields.Unbroken w ∧ '#' ∉ w.toList) :
    hostsWords (hostsLine a names) = a.text :: names.filter (· ≠ "") := by
  have htext : Fields.Unbroken a.text ∧ a.text ≠ "" ∧ '#' ∉ a.text.toList := by
    cases a <;> decide
  have hcomment : '#' ∉ (hostsLine a names).toList := by
    rw [hostsLine, String.toList_append, String.toList_append, String.toList_intercalate,
      List.mem_append, List.mem_append]
    rintro ((hin | hin) | hin)
    · exact htext.2.2 hin
    · revert hin
      decide
    · rcases Py.mem_intercalate hin with heq | ⟨w, hw, hin⟩
      · cases heq
      · obtain ⟨v, hv, rfl⟩ := List.mem_map.1 hw
        exact (h v hv).2 hin
  have hfields := @Fields.fields_append_blank a.text (" ".intercalate names) ' ' rfl
  rw [Fields.fields_unbroken htext.1 htext.2.1,
    Fields.fields_intercalate fun w hw => (h w hw).1] at hfields
  rw [hostsWords, HostsFile.withoutComment_of_not_mem hcomment]
  exact hfields

theorem head?_of_selects (h : a.selects line = true) :
    line.toList.head? = a.text.toList.head? := by
  rw [LocalhostAddress.selects, ← List.append_nil a.text.toList] at h
  exact LocalhostAddress.head?_of_matchesAt h

/-- A line that begins with an address is not of the other one. -/
theorem addressOf_ne (hab : a ≠ b) (h : a.selects line = true) :
    addressOf line ≠ some b.text := by
  intro hb
  obtain ⟨c, hc, hblank, hcomment⟩ : ∃ c, a.text.toList.head? = some c ∧
      Fields.isBlank c = false ∧ c ≠ '#' := by
    cases a
    · exact ⟨'1', rfl, rfl, by decide⟩
    · exact ⟨':', rfl, rfl, by decide⟩
  obtain ⟨cs, hcs⟩ := List.head?_eq_some_iff.1 ((head?_of_selects h).trans hc)
  have hcut : (withoutComment line).toList.head? = some c := by
    rw [withoutComment, String.toList_ofList, hcs, List.takeWhile_cons_of_pos (by simp [hcomment])]
    rfl
  obtain ⟨w, hw, hwc⟩ := Fields.head?_fields hcut hblank
  rw [addressOf, hostsWords, hw] at hb
  cases hb
  exact hab (LocalhostAddress.eq_of_head? (hc.trans hwc.symm))

end

/-! ## The update -/

section
variable {lower : String → String} {dict : List (String × List String)} {a b : LocalhostAddress}
  {e : LocalhostEntry} {entries : List (LocalhostAddress × LocalhostEntry)}
  {names lines : List String} {n line : String}

theorem selects_hostsLine : a.selects (hostsLine a names) = true := by
  rw [LocalhostAddress.selects, hostsLine, String.append_assoc, String.toList_append]
  exact Grep.matchesAt_append _ _

/-- The lines that are selected for an address or that are of it. -/
def concerns (a : LocalhostAddress) (line : String) : Bool :=
  a.selects line || addressOf line == some a.text

/-- A line that is selected for one address has nothing to do with the other. -/
theorem concerns_eq_false (hab : a ≠ b) (h : a.selects line = true) : concerns b line = false := by
  have hb : b.selects line = false := by
    rw [Bool.eq_false_iff]
    intro hb
    exact hab (LocalhostAddress.eq_of_head? ((head?_of_selects h).symm.trans (head?_of_selects hb)))
  simp [concerns, hb, addressOf_ne hab h]

/-- The names of an address depend only on the lines that concern it. -/
theorem mapsTo_filter : MapsTo lower (lines.filter (concerns a)) a n ↔ MapsTo lower lines a n := by
  refine exists_congr fun line => ?_
  rw [List.mem_filter, and_assoc]
  refine and_congr_right fun _ => and_iff_right_of_imp fun h => ?_
  simp [concerns, h.1]

/-- The task of one address changes nothing that concerns the other. -/
theorem filter_concerns_other (hab : a ≠ b) :
    (updateHostsLine lower dict lines (a, e)).filter (concerns b) = lines.filter (concerns b) :=
  LastMatch.filter_replaceLast_of_not (fun _ h => concerns_eq_false hab h)
    (concerns_eq_false hab selects_hostsLine)

/-- What the tasks change of the lines that concern an address is what the address's own task
changes. -/
theorem filter_concerns_foldl (hnd : (Assoc.keys entries).Nodup) :
    (entries.foldl (updateHostsLine lower dict) lines).filter (concerns a) =
      ((Assoc.lookup a entries).elim lines
        fun e => updateHostsLine lower dict lines (a, e)).filter (concerns a) := by
  induction entries generalizing lines with
  | nil => rfl
  | cons p entries ih =>
    obtain ⟨b, e⟩ := p
    rw [Assoc.keys_cons, List.nodup_cons] at hnd
    rw [List.foldl_cons, ih hnd.2, Assoc.lookup_cons]
    by_cases hab : b = a
    · subst hab
      rw [if_pos rfl, Assoc.lookup_eq_none.2 hnd.1]
      rfl
    · rw [if_neg hab]
      cases hlookup : Assoc.lookup a entries with
      | none => exact filter_concerns_other hab
      | some e' =>
        have hself : ∀ lines, (updateHostsLine lower dict lines (a, e')).filter (concerns a) =
            updateHostsLine lower dict (lines.filter (concerns a)) (a, e') := fun lines =>
          LastMatch.filter_replaceLast (fun _ h => by simp [concerns, h])
            (by simp [concerns, selects_hostsLine])
        rw [Option.elim_some, Option.elim_some, hself, hself, filter_concerns_other hab]

/-- The last line selected for an address. -/
def lastSelected (a : LocalhostAddress) (lines : List String) : Option String :=
  (LastMatch.splitLast a.selects lines).map fun s => s.2.1

theorem lastSelected_filter :
    lastSelected a (lines.filter (concerns a)) = lastSelected a lines := by
  have hsel : ∀ line, a.selects line = true → concerns a line = true := fun _ h => by
    simp [concerns, h]
  rw [lastSelected, LastMatch.splitLast_filter hsel, Option.map_map]
  rfl

/-- The words of the dictionary can be written on a line. -/
def DictWords (dict : List (String × List String)) : Prop :=
  ∀ a : LocalhostAddress, ∀ w ∈ (Assoc.lookup a.text dict).getD [],
    Fields.Unbroken w ∧ '#' ∉ w.toList

theorem dictWords_localhostsDict {tbl : Py.CharTable}
    (hspace : ∀ c : Char, c.toNat < 128 → tbl.isspace c = Py.isAsciiSpace c) (items : List String) :
    DictWords (localhostsDict tbl items) := by
  intro a w hw
  rw [lookup_localhostsDict hspace] at hw
  cases hitem : lastItem a items with
  | none =>
    rw [hitem] at hw
    cases hw
  | some item =>
    rw [hitem, Option.map_some, Option.getD_some] at hw
    exact of_mem_splitted (List.mem_of_mem_tail hw)

/-- The words of the line of an entry. -/
theorem hostsWords_target (hdict : DictWords dict) :
    hostsWords (hostsLine a (targetNames lower dict a e)) =
      a.text :: (targetNames lower dict a e).filter (· ≠ "") := by
  refine hostsWords_hostsLine fun w hw => ?_
  rcases of_mem_targetNames hw with hread | hexp
  · exact hdict a w hread
  · exact (e.expected_names w hexp).2

/-- The names of the address after its task: those that are written, and those on other lines. -/
theorem mapsTo_updateHostsLine (hdict : DictWords dict) :
    MapsTo lower (updateHostsLine lower dict lines (a, e)) a n ↔
      (∃ w ∈ targetNames lower dict a e, w ≠ "" ∧ lower w = lower n) ∨
        MapsTo lower (LastMatch.withoutLast a.selects lines) a n := by
  have hwords : hostsWords (hostsLine a (targetNames lower dict a e)) = _ := hostsWords_target hdict
  simp only [MapsTo, updateHostsLine, LastMatch.mem_replaceLast, or_and_right, exists_or,
    exists_eq_left, addressOf, namesOf, hwords, List.head?_cons, List.tail_cons, true_and,
    List.mem_filter, decide_eq_true_iff, and_assoc]

/-- A name that is mapped is not empty. -/
theorem MapsTo.ne_empty (hlower : ∀ s, lower s = "" ↔ s = "") (h : MapsTo lower lines a n) :
    n ≠ "" := by
  rintro rfl
  obtain ⟨line, -, -, m, hm, hlow⟩ := h
  rw [(hlower "").2 rfl, hlower] at hlow
  exact Fields.ne_empty_of_mem_fields (List.mem_of_mem_tail hm) hlow

/-- The names of the address after its task: those read and not unexpected, those expected, and
those on other lines. -/
theorem mapsTo_task (hlower : ∀ s, lower s = "" ↔ s = "") (hdict : DictWords dict) (hn : n ≠ "") :
    MapsTo lower (updateHostsLine lower dict lines (a, e)) a n ↔
      ((∃ w ∈ (Assoc.lookup a.text dict).getD [], w ∉ e.unexpected ∧ lower w = lower n) ∨
        ∃ w ∈ e.expected, lower w = lower n) ∨
          MapsTo lower (LastMatch.withoutLast a.selects lines) a n := by
  have hwritten : (∃ w ∈ targetNames lower dict a e, w ≠ "" ∧ lower w = lower n) ↔
      ∃ w ∈ targetNames lower dict a e, lower w = lower n := by
    refine exists_congr fun w => and_congr_right fun _ => and_iff_right_of_imp fun hw => ?_
    rwa [Ne, ← hlower w, hw, hlower]
  rw [mapsTo_updateHostsLine hdict, hwritten, exists_mem_targetNames]

/-- The names of the address before its task. -/
theorem mapsTo_iff : MapsTo lower lines a n ↔
    (∃ s, LastMatch.splitLast a.selects lines = some s ∧ addressOf s.2.1 = some a.text ∧
      ∃ m ∈ namesOf s.2.1, lower m = lower n) ∨
        MapsTo lower (LastMatch.withoutLast a.selects lines) a n := by
  constructor
  · rintro ⟨line, hline, haddr⟩
    rcases LastMatch.mem_iff.1 hline with ⟨s, hs, rfl⟩ | hline
    · exact .inl ⟨s, hs, haddr⟩
    · exact .inr ⟨line, hline, haddr⟩
  · rintro (⟨s, hs, haddr⟩ | ⟨line, hline, haddr⟩)
    · exact ⟨s.2.1, LastMatch.mem_iff.2 (.inl ⟨s, hs, rfl⟩), haddr⟩
    · exact ⟨line, LastMatch.mem_iff.2 (.inr hline), haddr⟩

/-- A line that is selected for an address is of a localhost address iff it is of this one. -/
theorem isOther_eq_false_iff (h : a.selects line = true) :
    isOther line = false ↔ addressOf line = some a.text := by
  have hne : ∀ b, a ≠ b → addressOf line ≠ some b.text := fun b hab => addressOf_ne hab h
  rw [isOther, decide_eq_false_iff_not, not_and_or, not_not, not_not]
  cases a
  · exact or_iff_left (hne .v6 (by decide))
  · exact or_iff_right (hne .v4 (by decide))

theorem isOther_target (hdict : DictWords dict) :
    isOther (hostsLine a (targetNames lower dict a e)) = false := by
  rw [isOther_eq_false_iff selects_hostsLine, addressOf, hostsWords_target hdict]
  rfl

/-- A task keeps the lines of other addresses iff the line that it replaces is of its address. -/
theorem filter_isOther_updateHostsLine (hdict : DictWords dict) :
    (updateHostsLine lower dict lines (a, e)).filter isOther = lines.filter isOther ↔
      ∀ line ∈ lastSelected a lines, addressOf line = some a.text := by
  rw [updateHostsLine, LastMatch.filter_replaceLast_eq_iff (isOther_target hdict), lastSelected]
  simp only [Option.mem_def, Option.map_eq_some_iff, forall_exists_index, and_imp]
  constructor
  · rintro h _ s hs rfl
    exact (isOther_eq_false_iff (LastMatch.eq_of_splitLast hs).2).1 (h s hs)
  · intro h s hs
    exact (isOther_eq_false_iff (LastMatch.eq_of_splitLast hs).2).2 (h _ s hs rfl)

/-- The tasks only lose lines of other addresses. -/
theorem filter_isOther_foldl_sublist (hdict : DictWords dict) :
    ((entries.foldl (updateHostsLine lower dict) lines).filter isOther).Sublist
      (lines.filter isOther) := by
  induction entries generalizing lines with
  | nil => exact .refl _
  | cons p entries ih =>
    rw [List.foldl_cons]
    exact ih.trans (LastMatch.filter_replaceLast_sublist (isOther_target hdict))

/-- They keep them iff each task replaces a line of its address. -/
theorem filter_isOther_foldl (hdict : DictWords dict) (hnd : (Assoc.keys entries).Nodup) :
    (entries.foldl (updateHostsLine lower dict) lines).filter isOther = lines.filter isOther ↔
      ∀ p ∈ entries, ∀ line ∈ lastSelected p.1 lines, addressOf line = some p.1.text := by
  induction entries generalizing lines with
  | nil => simp
  | cons p entries ih =>
    obtain ⟨a, e⟩ := p
    rw [Assoc.keys_cons, List.nodup_cons] at hnd
    have hfirst : (updateHostsLine lower dict lines (a, e)).filter isOther =
        lines.filter isOther ↔ _ := filter_isOther_updateHostsLine hdict
    -- the task of one address leaves what another one looks at
    have hrest : ∀ q ∈ entries, lastSelected q.1 (updateHostsLine lower dict lines (a, e)) =
        lastSelected q.1 lines := by
      intro q hq
      have hne : a ≠ q.1 := by
        rintro rfl
        exact hnd.1 (show q.1 ∈ _ from Assoc.mem_keys_of_mem hq)
      rw [← lastSelected_filter, filter_concerns_other hne, lastSelected_filter]
    rw [List.foldl_cons, List.forall_mem_cons, ← hfirst]
    have hsub : ((entries.foldl (updateHostsLine lower dict)
        (updateHostsLine lower dict lines (a, e))).filter isOther).Sublist _ :=
      filter_isOther_foldl_sublist hdict
    have hsub' : ((updateHostsLine lower dict lines (a, e)).filter isOther).Sublist
        (lines.filter isOther) :=
      LastMatch.filter_replaceLast_sublist (isOther_target hdict)
    constructor
    · intro h
      have hlength : (lines.filter isOther).length ≤
          ((updateHostsLine lower dict lines (a, e)).filter isOther).length := by
        rw [← h]
        exact hsub.length_le
      have hstep := hsub'.eq_of_length_le hlength
      refine ⟨hstep, fun q hq line hline => ?_⟩
      exact (ih hnd.2).1 (h.trans hstep.symm) q hq line (by rwa [hrest q hq])
    · rintro ⟨hstep, h⟩
      rw [← hstep]
      refine (ih hnd.2).2 fun q hq line hline => h q hq line ?_
      rwa [hrest q hq] at hline

end

section
variable {tbl : Py.CharTable} {lower : String → String} {entries : LocalhostEntries}
  {lines : List String} {a : LocalhostAddress} {n : String}

/-- The words that were read for an address. -/
theorem mem_lookup_localhostsDict {w : String}
    (hspace : ∀ c : Char, c.toNat < 128 → tbl.isspace c = Py.isAsciiSpace c) :
    w ∈ (Assoc.lookup a.text (localhostsDict tbl (hostsItems lines))).getD [] ↔
      ∃ item, lastItem a (hostsItems lines) = some item ∧ w ∈ (splitted tbl item).tail := by
  rw [lookup_localhostsDict hspace]
  cases lastItem a (hostsItems lines) <;> simp

/-- The names of an address after all tasks are those after its own task. -/
theorem mapsTo_updateHosts : MapsTo lower (updateHosts tbl lower entries lines) a n ↔
    MapsTo lower ((entries.get? a).elim lines fun e =>
      updateHostsLine lower (localhostsDict tbl (hostsItems lines)) lines (a, e)) a n := by
  rw [updateHosts, ← mapsTo_filter, filter_concerns_foldl entries.nodup, mapsTo_filter]
  rfl

end

/-- The tasks lose nothing of a hosts file iff for each of the entries the line that they replace is
of its address, and its names are expected, unexpected, read from the last item with a blank after
the address, or on another line. -/
theorem localhost_entries_iff (tbl : Py.CharTable) (lower : String → String)
    (hspace : ∀ c : Char, c.toNat < 128 → tbl.isspace c = Py.isAsciiSpace c)
    (hlower : ∀ s, lower s = "" ↔ s = "") (entries : LocalhostEntries) (lines : List String) :
    NothingLost lower entries lines (updateHosts tbl lower entries lines) ↔
      ∀ a e, entries.get? a = some e → LinesAgree tbl lower lines a e := by
  have hdict := dictWords_localhostsDict hspace (hostsItems lines)
  have hother : (updateHosts tbl lower entries lines).filter isOther = lines.filter isOther ↔ _ :=
    filter_isOther_foldl hdict entries.nodup
  constructor
  · rintro ⟨hkept, -, hothers⟩ a e he before line after hsplit
    have haddr : addressOf line = some a.text :=
      hother.1 hothers (a, e) (OrdDict.get?_eq_some.1 he) line (by simp [lastSelected, hsplit])
    refine ⟨haddr, fun n hn => ?_⟩
    have hbefore : MapsTo lower lines a n := mapsTo_iff.2 (.inl ⟨_, hsplit, haddr, n, hn, rfl⟩)
    rcases hkept a n hbefore with ⟨e', he', u, hu, hlow⟩ | hafter
    · rw [he] at he'
      cases he'
      exact .inl ⟨u, List.mem_append_right _ hu, hlow⟩
    · rw [mapsTo_updateHosts, he, Option.elim_some,
        mapsTo_task hlower hdict (hbefore.ne_empty hlower),
        LastMatch.withoutLast, hsplit] at hafter
      rcases hafter with (⟨w, hw, -, hlow⟩ | ⟨w, hw, hlow⟩) | hafter
      · obtain ⟨item, hitem, hword⟩ := (mem_lookup_localhostsDict hspace).1 hw
        exact .inr (.inl ⟨item, hitem, w, hword, hlow⟩)
      · exact .inl ⟨w, List.mem_append_left _ hw, hlow⟩
      · exact .inr (.inr hafter)
  · intro hagree
    refine ⟨fun a n hn => ?_, fun a e he n hn => ?_, hother.2 fun p hp line hline => ?_⟩
    · rw [mapsTo_updateHosts]
      cases he : entries.get? a with
      | none => exact .inr hn
      | some e =>
        rw [Option.elim_some, mapsTo_task hlower hdict (hn.ne_empty hlower)]
        rcases mapsTo_iff.1 hn with ⟨s, hs, -, m, hm, hlow⟩ | hrest
        · rcases (hagree a e he s.1 s.2.1 s.2.2 hs).2 m hm with
            ⟨w, hw, hwm⟩ | ⟨item, hitem, w, hw, hwm⟩ | ⟨line, hline, haddr, w, hw, hwm⟩
          · rcases List.mem_append.1 hw with hw | hw
            · exact .inr (.inl (.inr ⟨w, hw, hwm.trans hlow⟩))
            · exact .inl ⟨e, rfl, w, hw, hwm.trans hlow⟩
          · by_cases hun : w ∈ e.unexpected
            · exact .inl ⟨e, rfl, w, hun, hwm.trans hlow⟩
            · have hdict := (mem_lookup_localhostsDict hspace).2 ⟨item, hitem, hw⟩
              exact .inr (.inl (.inl ⟨w, hdict, hun, hwm.trans hlow⟩))
          · rw [LastMatch.withoutLast, hs]
            exact .inr (.inr ⟨line, hline, haddr, w, hw, hwm.trans hlow⟩)
        · exact .inr (.inr hrest)
    · rw [mapsTo_updateHosts, he, Option.elim_some,
        mapsTo_task hlower hdict (e.expected_names n hn).1]
      exact .inl (.inr ⟨n, hn, rfl⟩)
    · obtain ⟨s, hs, rfl⟩ := Option.map_eq_some_iff.1 hline
      exact (hagree p.1 p.2 (OrdDict.get?_eq_some.2 hp) s.1 s.2.1 s.2.2 hs).1

/-- Nothing is lost of a line whose names were all read. -/
theorem linesAgree_of_read {tbl : Py.CharTable} {lower : String → String} {lines : List String}
    {a : LocalhostAddress} {e : LocalhostEntry} {line item : String}
    (hline : lastSelected a lines = some line) (haddr : addressOf line = some a.text)
    (hitem : lastItem a (hostsItems lines) = some item)
    (hread : ∀ n ∈ namesOf line, n ∈ (splitted tbl item).tail) :
    LinesAgree tbl lower lines a e := by
  intro before line' after hsplit
  rw [lastSelected, hsplit] at hline
  cases hline
  exact ⟨haddr, fun n hn => .inr (.inl ⟨item, hitem, n, hread n hn, rfl⟩)⟩

/-- The default of `etc_hosts_localhost_entries`. -/
def defaultLocalhostEntries : LocalhostEntries where
  items :=
    [(.v4, { expected := ["localhost", "localhost.localdomain"], expected_names := by decide }),
     (.v6, { expected := ["localhost6", "localhost6.localdomain"]
             unexpected := ["localhost", "localhost.localdomain"]
             expected_names := by decide })]
  nodup := by decide

/-- A file with a blank after each address. -/
theorem localhost_entries_blanks :
    let lines := ["127.0.0.1 localhost myhost\tmyhost.local # local",
      "::1  localhost ip6-localhost", "10.0.0.5\tnode1"]
    let lines' := updateHosts .ascii lowerAscii defaultLocalhostEntries lines
    lines' = ["127.0.0.1 localhost myhost myhost.local localhost.localdomain",
      "::1 ip6-localhost localhost6 localhost6.localdomain", "10.0.0.5\tnode1"] ∧
    NothingLost lowerAscii defaultLocalhostEntries lines lines' := by
  refine ⟨by decide +kernel, ?_⟩
  refine (localhost_entries_iff .ascii lowerAscii (fun _ _ => rfl) lowerAscii_eq_empty _ _).2
    fun a e _ => ?_
  cases a
  · exact @linesAgree_of_read _ _ _ .v4 e "127.0.0.1 localhost myhost\tmyhost.local # local"
      "127.0.0.1 localhost myhost\tmyhost.local # local" (by decide +kernel) (by decide +kernel)
      (by decide +kernel) (by decide +kernel)
  · exact @linesAgree_of_read _ _ _ .v6 e "::1  localhost ip6-localhost"
      "::1  localhost ip6-localhost" (by decide +kernel) (by decide +kernel) (by decide +kernel)
      (by decide +kernel)

/-- The names after an address and a tab are lost. -/
theorem localhost_entries_fail :
    ¬ ∀ (tbl : Py.CharTable) (lower : String → String) (entries : LocalhostEntries)
      (lines : List String),
      (∀ c : Char, c.toNat < 128 → tbl.isspace c = Py.isAsciiSpace c) →
      (∀ s, lower s = "" ↔ s = "") →
      NothingLost lower entries lines (updateHosts tbl lower entries lines) := by
  intro h
  have hlines : updateHosts .ascii lowerAscii defaultLocalhostEntries ["127.0.0.1\tmyhost"] =
      ["127.0.0.1 localhost localhost.localdomain", "::1 localhost6 localhost6.localdomain"] := by
    decide +kernel
  obtain ⟨hkept, -, -⟩ := h .ascii lowerAscii defaultLocalhostEntries ["127.0.0.1\tmyhost"]
    (fun _ _ => rfl) lowerAscii_eq_empty
  have hbefore : MapsTo lowerAscii ["127.0.0.1\tmyhost"] .v4 "myhost" := by
    unfold MapsTo
    decide +kernel
  rw [hlines] at hkept
  rcases hkept .v4 "myhost" hbefore with ⟨e, he, u, hu, -⟩ | hafter
  · cases he
    cases hu
  · revert hafter
    unfold MapsTo
    decide +kernel

end Kubespray
