import Kubespray.Lib.FirstGroup
import Kubespray.Lib.IpAddress
import Kubespray.Lib.ManagedBlock
import Kubespray.Lib.Unique
import Mathlib.Data.List.Infix

/-!
# The block of `/etc/resolv.conf`

With `resolvconf_mode: host_resolvconf`, `0060-resolvconf.yml` puts a block into `/etc/resolv.conf`
and removes what else is configured there, and `0040-set_facts.yml` reads the nameservers for the
block, those apart that the variables give, from the same file. So each run reads what the one
before has written.

A nameserver that a run has once written, or has read, stays for all later runs, after theirs
(`nameservers_accumulate`); one that the tasks do not read, with a comment after it, does not. Of
the other lines one run removes only the first group after the block for each keyword; only after as
many runs as there are lines of one keyword is the block the only configuration
(`resolv_conf_settles`).
-/

open ManagedBlock (Marks Unmarked marked setBlock)
open FirstGroup (dropGroup pass)
open Py (lowerAscii)
open Unique (uniqueBy uniqueBy_eq_eraseDups)

namespace Kubespray

/-! ## The nameservers -/

/-- `dns_mode`. -/
inductive DnsMode where
  | coredns | corednsDual | manual | none
  deriving DecidableEq, Repr

/-- The variables of a run. -/
structure ResolvVars where
  dnsDomain : String
  searchdomains : List String := []
  ndots : Nat := 2
  dnsMode : DnsMode := .coredns
  /-- Kubelet is not configured yet. -/
  dnsEarly : Bool := false
  dnsLate : Bool := false
  enableNodelocaldns : Bool := true
  nodelocaldnsIp : String := "169.254.25.10"
  skydnsServer : String
  skydnsServerSecondary : String
  manualDnsServer : String := ""
  upstreamDnsServers : List String := []
  nameservers : List String := []
  cloudResolver : List String := []

namespace ResolvVars

variable (vars : ResolvVars)

def corednsServer : List String :=
  if vars.dnsEarly then vars.upstreamDnsServers
  else
    match vars.dnsMode with
    | .coredns => [vars.skydnsServer]
    | .corednsDual => [vars.skydnsServer, vars.skydnsServerSecondary]
    | .manual => Py.split ',' vars.manualDnsServer
    | .none => []

/-- The nameservers of the run, without the `configured_nameservers`. -/
def wantedNameservers : List String :=
  if !vars.dnsEarly || vars.dnsLate then
    (if vars.enableNodelocaldns then [vars.nodelocaldnsIp] else []) ++ vars.corednsServer ++
      vars.nameservers ++ vars.cloudResolver
  else vars.nameservers ++ vars.cloudResolver

def domainentry : String := "domain " ++ vars.dnsDomain

def searchentries : String :=
  "search " ++ " ".intercalate
    (["default.svc." ++ vars.dnsDomain, "svc." ++ vars.dnsDomain] ++ vars.searchdomains)

def ndotsLine : String := "options ndots:" ++ toString vars.ndots

/-- The block of `Add domain/search/nameservers/options to resolv.conf`. -/
def block (nameserverentries : String) : List String :=
  [vars.domainentry, vars.searchentries] ++
    (Py.split ',' nameserverentries).map ("nameserver " ++ ·) ++
    [vars.ndotsLine, "options timeout:2", "options attempts:2"]

end ResolvVars

/-- The character classes and the filters, which are not of this repository. -/
structure Filters where
  tbl : Py.CharTable
  isspace_ascii : ∀ c : Char, c.toNat < 128 → tbl.isspace c = Py.isAsciiSpace c
  /-- `str.lower`, by which `unique` compares. -/
  lower : String → String
  /-- `ipaddr`: an address in its normal form, and nothing for other texts. -/
  ipaddr : String → Option String
  normal : ∀ s t, ipaddr s = some t → ipaddr t = some t ∧ lower t = t
  /-- Digits, letters, dots, colons and slashes are in this range, and white space, commas and
  comments are not. -/
  plain : ∀ s t, ipaddr s = some t → t ≠ "" ∧
    ∀ c ∈ t.toList, '.'.toNat ≤ c.toNat ∧ c.toNat ≤ 'z'.toNat
  not_options : ∀ s, ipaddr ("options " ++ s) = none

namespace Filters

variable (f : Filters)

/-- The text after the white space that it begins with. -/
def lstrip (s : String) : String := String.ofList (s.toList.dropWhile f.tbl.isspace)

end Filters

/-- What follows the first `nameserver` of the line. -/
def afterNameserver (line : String) : Option String :=
  (line.toList.tails.find? fun text => "nameserver".toList.isPrefixOf text).map fun text =>
    String.ofList (text.drop "nameserver".length)

/-- `regex_findall('\\s*nameserver\\s*(.*)')`. The white space may go on to the next lines; the flag
says that the last line was such. -/
def findNameservers (f : Filters) : Bool → List String → List String
  | false, [] => []
  | true, [] => [""]
  | false, l :: ls =>
    match afterNameserver l with
    | some rest =>
      if f.lstrip rest = "" then findNameservers f true ls
      else f.lstrip rest :: findNameservers f false ls
    | none => findNameservers f false ls
  | true, l :: ls =>
    if f.lstrip l = "" then findNameservers f true ls
    else f.lstrip l :: findNameservers f false ls

/-- `configured_nameservers`. -/
def configuredNameservers (f : Filters) (lines : List String) : List String :=
  (findNameservers f false lines).filterMap f.ipaddr

def nameserverentries (f : Filters) (vars : ResolvVars) (lines : List String) : String :=
  ",".intercalate (uniqueBy f.lower (vars.wantedNameservers ++ configuredNameservers f lines))

/-! ## The edits -/

/-- The markers of the block in `/etc/resolv.conf`. -/
def resolvMarks : Marks String where
  opening := "# Ansible entries BEGIN"
  closing := "# Ansible entries END"
  atStart := true
  ne := by decide

/-- What else may configure the resolver. -/
def keywords : List String := ["search ", "nameserver ", "domain ", "options "]

/-- The line begins with the keyword. -/
def configures (keyword line : String) : Bool := Py.startsWith line keyword

/-- The line from its first `#` on, if this is a marker. -/
def openingOf (line : String) : Option String :=
  let text := line.toList.dropWhile (· ≠ '#')
  if resolvMarks.opening.toList.isPrefixOf text then some (String.ofList text) else none

/-- `Remove search/domain/nameserver options before block`: the text from a line with the keyword on
to a marker is removed, if there is no comment between. The second part of the result is for lines
after a line with the keyword: those that are left if a marker follows. -/
def removeBeforeFrom (keyword : String) : List String → List String × Option (List String)
  | [] => ([], none)
  | l :: ls =>
    let next := removeBeforeFrom keyword ls
    let removed :=
      if '#' ∈ l.toList then (openingOf l).map fun marker => marker :: next.1 else next.2
    (if configures keyword l then removed.getD (l :: next.1) else l :: next.1, removed)

def removeBefore (keyword : String) (lines : List String) : List String :=
  (removeBeforeFrom keyword lines).1

/-- Where the next task is in a file: before a marker, after it, or at lines that it removes. -/
inductive Scan where
  | text | found | removing

/-- `Remove search/domain/nameserver options after block`. -/
def removeAfterFrom (keyword : String) : Scan → List String → List String
  | _, [] => []
  | .text, l :: ls =>
    l :: removeAfterFrom keyword
      (if resolvMarks.closing.toList.isSuffixOf l.toList then .found else .text) ls
  | .found, l :: ls =>
    if configures keyword l then removeAfterFrom keyword .removing ls
    else l :: removeAfterFrom keyword .found ls
  | .removing, l :: ls =>
    if configures keyword l then removeAfterFrom keyword .removing ls
    else
      l :: removeAfterFrom keyword
        (if resolvMarks.closing.toList.isSuffixOf l.toList then .found else .text) ls

def removeAfter (keyword : String) (lines : List String) : List String :=
  removeAfterFrom keyword .text lines

/-- The lines of `/etc/resolv.conf` after a run. -/
def updateResolvConf (f : Filters) (vars : ResolvVars) (lines : List String) : List String :=
  let lines' := setBlock resolvMarks (vars.block (nameserverentries f vars lines)) lines
  let lines' := keywords.foldl (fun lines keyword => removeBefore keyword lines) lines'
  keywords.foldl (fun lines keyword => removeAfter keyword lines) lines'

/-! ## Assumptions -/

/-- The run's own words are not read as nameservers, and its nameservers are addresses. -/
structure ResolvVars.Fits (f : Filters) (vars : ResolvVars) : Prop where
  quiet : ∀ l ∈ [vars.domainentry, vars.searchentries, vars.ndotsLine],
    '#' ∉ l.toList ∧ afterNameserver l = none
  addresses : ∀ x ∈ vars.wantedNameservers, f.ipaddr x = some x

/-- A file without markers, in which every `nameserver` has something after it on its line. -/
def Foreign (f : Filters) (lines : List String) : Prop :=
  ∀ l ∈ lines, ¬ resolvMarks.opening.toList <:+: l.toList ∧
    ¬ resolvMarks.closing.toList <:+: l.toList ∧
    ∀ rest, afterNameserver l = some rest → f.lstrip rest ≠ ""

/-! ## Reading the nameservers -/

section
variable {f : Filters} {vars : ResolvVars} {l n x : String} {names ls ls' : List String}

/-- What a line gives on its own. -/
def lineNameservers (f : Filters) (l : String) : List String :=
  match afterNameserver l with
  | some rest => [f.lstrip rest]
  | none => []

/-- Lines of which each has something after its `nameserver` are read one by one. -/
theorem findNameservers_append
    (h : ∀ l ∈ ls, ∀ rest, afterNameserver l = some rest → f.lstrip rest ≠ "") :
    findNameservers f false (ls ++ ls') =
      ls.flatMap (lineNameservers f) ++ findNameservers f false ls' := by
  induction ls with
  | nil => rfl
  | cons l ls ih =>
    rw [List.forall_mem_cons] at h
    rw [List.cons_append, findNameservers, List.flatMap_cons, lineNameservers]
    cases hl : afterNameserver l with
    | none => exact ih h.2
    | some rest =>
      dsimp only
      rw [if_neg (h.1 rest hl), ih h.2]
      rfl

/-- Nothing is read from a line without the last letters of `nameserver`. -/
theorem afterNameserver_eq_none (h : 'v' ∉ l.toList) : afterNameserver l = none := by
  rw [afterNameserver, Option.map_eq_none_iff, List.find?_eq_none]
  intro text htext hpre
  have hv : 'v' ∈ "nameserver".toList := by decide
  have hmem := (List.isPrefixOf_iff_prefix.1 hpre).subset hv
  exact h (((List.mem_tails _ _).1 htext).subset hmem)

/-- The characters of an address. -/
theorem Filters.of_address (hx : f.ipaddr x = some x) {c : Char} (hc : c ∈ x.toList) :
    f.tbl.isspace c = false ∧ c ≠ '#' ∧ c ≠ ',' := by
  obtain ⟨hlow, hhigh⟩ := (f.plain x x hx).2 c hc
  have hdot : '.'.toNat = 46 := rfl
  have hz : 'z'.toNat = 122 := rfl
  rw [hdot] at hlow
  rw [hz] at hhigh
  refine ⟨?_, fun heq => ?_, fun heq => ?_⟩
  · rw [f.isspace_ascii c (by omega), Py.isAsciiSpace_eq_false (by omega)]
  · rw [heq] at hlow
    exact absurd hlow (by decide)
  · rw [heq] at hlow
    exact absurd hlow (by decide)

theorem lstrip_of_head {c : Char} (hc : l.toList.head? = some c)
    (hspace : f.tbl.isspace c = false) : f.lstrip l = l := by
  obtain ⟨cs, hcs⟩ := List.head?_eq_some_iff.1 hc
  rw [Filters.lstrip, hcs, List.dropWhile_cons_of_neg (by simp [hspace]), ← hcs,
    String.ofList_toList]

/-- A line of the block is read as its address. -/
theorem afterNameserver_address (x : String) :
    afterNameserver ("nameserver " ++ x) = some (" " ++ x) := by
  have hline : ("nameserver " ++ x).toList = "nameserver".toList ++ (" " ++ x).toList := by simp
  have hpre : "nameserver".toList.isPrefixOf ("nameserver".toList ++ (" " ++ x).toList) = true :=
    List.isPrefixOf_iff_prefix.2 (List.prefix_append _ _)
  have hfind : ("nameserver".toList ++ (" " ++ x).toList).tails.find?
      (fun text => "nameserver".toList.isPrefixOf text) =
      some ("nameserver".toList ++ (" " ++ x).toList) :=
    List.find?_cons_of_pos hpre
  have hdrop : ("nameserver".toList ++ (" " ++ x).toList).drop "nameserver".length =
      (" " ++ x).toList :=
    List.drop_left' rfl
  rw [afterNameserver, hline, hfind, Option.map_some, hdrop, String.ofList_toList]

theorem lstrip_address (hx : f.ipaddr x = some x) : f.lstrip (" " ++ x) = x := by
  have hblank : f.tbl.isspace ' ' = true := f.isspace_ascii ' ' (by decide)
  obtain ⟨c, hc⟩ : ∃ c, x.toList.head? = some c := by
    rw [← Option.isSome_iff_exists, List.isSome_head?]
    exact mt String.toList_eq_nil_iff.1 (f.plain x x hx).1
  have hx' := lstrip_of_head hc (f.of_address hx (List.mem_of_head? hc)).1
  have hcons : (" " ++ x).toList = ' ' :: x.toList := by rw [String.toList_append]; rfl
  rw [Filters.lstrip, hcons, List.dropWhile_cons_of_pos hblank]
  exact hx'

/-- Lines without `nameserver` are passed over. -/
theorem findNameservers_quiet (h : ∀ l ∈ ls, afterNameserver l = none) :
    findNameservers f false (ls ++ ls') = findNameservers f false ls' := by
  have hnone : ls.flatMap (lineNameservers f) = [] := by
    refine List.flatMap_eq_nil_iff.2 fun l hl => ?_
    rw [lineNameservers, h l hl]
  rw [findNameservers_append fun l hl rest hrest => ?_, hnone, List.nil_append]
  rw [h l hl] at hrest
  cases hrest

/-- The lines for nameservers are read as the addresses on them, whatever follows. -/
theorem findNameservers_addresses (hfits : vars.Fits f) (hnames : ∀ x ∈ names, f.ipaddr x = some x)
    (ls : List String) :
    (findNameservers f false ((Py.split ',' (",".intercalate names)).map ("nameserver " ++ ·) ++
        vars.ndotsLine :: ls)).filterMap f.ipaddr =
      names ++ (findNameservers f false ls).filterMap f.ipaddr := by
  have hquiet : afterNameserver vars.ndotsLine = none := (hfits.quiet _ (by simp)).2
  cases names with
  | nil =>
    -- the next line is read instead, which is no address
    have hndots : f.lstrip vars.ndotsLine = vars.ndotsLine ∧ vars.ndotsLine ≠ "" ∧
        f.ipaddr vars.ndotsLine = none := by
      have hline : vars.ndotsLine = "options " ++ ("ndots:" ++ toString vars.ndots) := by
        rw [ResolvVars.ndotsLine, ← String.append_assoc]
        rfl
      have hhead : vars.ndotsLine.toList.head? = some 'o' := by
        rw [hline, String.toList_append]
        rfl
      refine ⟨lstrip_of_head hhead (f.isspace_ascii 'o' (by decide)), fun hempty => ?_, ?_⟩
      · rw [hempty] at hhead
        cases hhead
      · rw [hline]
        exact f.not_options _
    have hblank : f.lstrip (" " ++ "") = "" := by
      have hspace : f.tbl.isspace ' ' = true := f.isspace_ascii ' ' (by decide)
      have hlist : (" " ++ "").toList = [' '] := rfl
      rw [Filters.lstrip, hlist, List.dropWhile_cons_of_pos hspace]
      rfl
    have hsplit : Py.split ',' (",".intercalate []) = [""] := rfl
    rw [hsplit, List.map_singleton, List.singleton_append, findNameservers,
      afterNameserver_address]
    dsimp only
    rw [if_pos hblank, findNameservers, hndots.1, if_neg hndots.2.1,
      List.filterMap_cons_none hndots.2.2, List.nil_append]
  | cons x xs =>
    have hsplit : Py.split ',' (",".intercalate (x :: xs)) = x :: xs :=
      Py.split_intercalate (List.cons_ne_nil x xs) fun y hy hc =>
        (f.of_address (hnames y hy) hc).2.2 rfl
    have hclosed : ∀ l ∈ (x :: xs).map ("nameserver " ++ ·), ∀ rest,
        afterNameserver l = some rest → f.lstrip rest ≠ "" := by
      intro l hl rest hrest
      obtain ⟨y, hy, rfl⟩ := List.mem_map.1 hl
      rw [afterNameserver_address] at hrest
      cases hrest
      rw [lstrip_address (hnames y hy)]
      exact (f.plain y y (hnames y hy)).1
    have hread : ∀ ys : List String, (∀ y ∈ ys, f.ipaddr y = some y) →
        (ys.map ("nameserver " ++ ·)).flatMap (lineNameservers f) = ys ∧
          ys.filterMap f.ipaddr = ys := by
      intro ys hys
      induction ys with
      | nil => exact ⟨rfl, rfl⟩
      | cons y ys ih =>
        rw [List.forall_mem_cons] at hys
        obtain ⟨hmap, hfilter⟩ := ih hys.2
        rw [List.map_cons, List.flatMap_cons, hmap, lineNameservers, afterNameserver_address,
          List.filterMap_cons_some hys.1, hfilter]
        dsimp only
        rw [lstrip_address hys.1]
        exact ⟨rfl, rfl⟩
    obtain ⟨hmap, hfilter⟩ := hread (x :: xs) hnames
    rw [hsplit, findNameservers_append hclosed, hmap, List.filterMap_append, hfilter,
      findNameservers, hquiet]

/-- Reading the block gives its addresses, and nothing else that is an address. -/
theorem configured_block (hfits : vars.Fits f) (hnames : ∀ x ∈ names, f.ipaddr x = some x)
    (ls : List String) :
    configuredNameservers f (marked resolvMarks (vars.block (",".intercalate names)) ++ ls) =
      names ++ configuredNameservers f ls := by
  have hlines : marked resolvMarks (vars.block (",".intercalate names)) ++ ls =
      [resolvMarks.opening, vars.domainentry, vars.searchentries] ++
        ((Py.split ',' (",".intercalate names)).map ("nameserver " ++ ·) ++ vars.ndotsLine ::
          (["options timeout:2", "options attempts:2", resolvMarks.closing] ++ ls)) := by
    rw [ResolvVars.block]
    simp [marked]
  have hbefore : ∀ l ∈ [resolvMarks.opening, vars.domainentry, vars.searchentries],
      afterNameserver l = none := by
    simp only [List.forall_mem_cons]
    exact ⟨afterNameserver_eq_none (by decide), (hfits.quiet _ (by simp)).2,
      (hfits.quiet _ (by simp)).2,
      List.forall_mem_nil _⟩
  have hafter : ∀ l ∈ ["options timeout:2", "options attempts:2", resolvMarks.closing],
      afterNameserver l = none := by
    simp only [List.forall_mem_cons]
    exact ⟨afterNameserver_eq_none (by decide), afterNameserver_eq_none (by decide),
      afterNameserver_eq_none (by decide), List.forall_mem_nil _⟩
  rw [configuredNameservers, hlines, findNameservers_quiet hbefore,
    findNameservers_addresses hfits hnames, findNameservers_quiet hafter, configuredNameservers]

end

/-! ## The edits -/

section
variable {f : Filters} {vars : ResolvVars} {keyword l : String} {block names ls ls' : List String}

theorem openingOf_eq_none (h : ¬ resolvMarks.opening.toList <:+: l.toList) :
    openingOf l = none := by
  refine if_neg fun hpre => h ?_
  exact (List.isPrefixOf_iff_prefix.1 hpre).isInfix.trans (List.dropWhile_suffix _).isInfix

/-- Without a marker nothing is removed before one. -/
theorem removeBeforeFrom_of_not_opening (h : ∀ l ∈ ls, openingOf l = none) :
    removeBeforeFrom keyword ls = (ls, none) := by
  induction ls with
  | nil => rfl
  | cons l ls ih =>
    rw [List.forall_mem_cons] at h
    rw [removeBeforeFrom, ih h.2, h.1]
    simp

/-- Nothing is before a block in front. -/
theorem removeBefore_front (hkeyword : keyword ∈ keywords) (h : ∀ l ∈ ls, openingOf l = none) :
    removeBefore keyword (resolvMarks.opening :: ls) = resolvMarks.opening :: ls := by
  have hopening : configures keyword resolvMarks.opening = false := by
    revert keyword
    decide
  rw [removeBefore, removeBeforeFrom, removeBeforeFrom_of_not_opening h, hopening]
  rfl

/-- The line does not end in the marker after which lines are removed. -/
def NotClosing (l : String) : Prop := resolvMarks.closing.toList.isSuffixOf l.toList = false

theorem notClosing_of_not_infix (h : ¬ resolvMarks.closing.toList <:+: l.toList) : NotClosing l :=
  Bool.eq_false_iff.2 fun hsuffix => h (List.isSuffixOf_iff_suffix.1 hsuffix).isInfix

theorem removeAfterFrom_text (h : ∀ l ∈ ls, NotClosing l) :
    removeAfterFrom keyword .text (ls ++ ls') = ls ++ removeAfterFrom keyword .text ls' := by
  induction ls with
  | nil => rfl
  | cons l ls ih =>
    rw [List.forall_mem_cons] at h
    rw [List.cons_append, removeAfterFrom, h.1, if_neg Bool.false_ne_true, ih h.2, List.cons_append]

/-- After the lines that are removed the others stay. -/
theorem removeAfterFrom_removing (h : ∀ l ∈ ls, NotClosing l) :
    removeAfterFrom keyword .removing ls = ls.dropWhile (configures keyword) := by
  induction ls with
  | nil => rfl
  | cons l ls ih =>
    rw [List.forall_mem_cons] at h
    have hrest := @removeAfterFrom_text keyword ls [] h.2
    rw [List.append_nil, removeAfterFrom, List.append_nil] at hrest
    rw [removeAfterFrom]
    cases hl : configures keyword l with
    | true => simpa [hl] using ih h.2
    | false =>
      rw [h.1, if_neg Bool.false_ne_true, if_neg Bool.false_ne_true, hrest,
        List.dropWhile_cons_of_neg (by simp [hl])]

/-- After the marker the first group of lines with the keyword is removed. -/
theorem removeAfterFrom_found (h : ∀ l ∈ ls, NotClosing l) :
    removeAfterFrom keyword .found ls = dropGroup (configures keyword) ls := by
  induction ls with
  | nil => rfl
  | cons l ls ih =>
    rw [List.forall_mem_cons] at h
    rw [removeAfterFrom]
    cases hl : configures keyword l with
    | true =>
      rw [FirstGroup.dropGroup_cons_of_pos hl, ← removeAfterFrom_removing h.2]
      rfl
    | false =>
      rw [FirstGroup.dropGroup_cons_of_neg hl, ← ih h.2]
      rfl

/-- After a block in front, the first group of other lines is removed. -/
theorem removeAfter_front (hblock : ∀ l ∈ block, NotClosing l) (h : ∀ l ∈ ls, NotClosing l) :
    removeAfter keyword (resolvMarks.opening :: (block ++ resolvMarks.closing :: ls)) =
      resolvMarks.opening ::
        (block ++ resolvMarks.closing :: dropGroup (configures keyword) ls) := by
  have hopening : NotClosing resolvMarks.opening := by
    rw [NotClosing]
    decide
  have hclosing : resolvMarks.closing.toList.isSuffixOf resolvMarks.closing.toList = true := by
    decide
  have hbefore : ∀ l ∈ resolvMarks.opening :: block, NotClosing l :=
    List.forall_mem_cons.2 ⟨hopening, hblock⟩
  have htext := @removeAfterFrom_text keyword _ (resolvMarks.closing :: ls) hbefore
  rw [List.cons_append] at htext
  rw [removeAfter, htext, removeAfterFrom, hclosing, if_pos rfl, removeAfterFrom_found h,
    List.cons_append]

end

/-! ## The runs -/

section
variable {f : Filters} {vars : ResolvVars} {runs : List ResolvVars} {x : String}
  {block names others lines : List String}

/-- The keywords as properties of lines. -/
def kinds : List (String → Bool) := keywords.map configures

/-- No line of the block has a comment. -/
theorem not_comment_of_mem_block (hfits : vars.Fits f) (hnames : ∀ x ∈ names, f.ipaddr x = some x)
    {l : String} (hl : l ∈ vars.block (",".intercalate names)) : '#' ∉ l.toList := by
  rw [ResolvVars.block, List.mem_append, List.mem_append] at hl
  rcases hl with (hl | hl) | hl
  · exact (hfits.quiet l (by revert hl; simp; tauto)).1
  · obtain ⟨y, hy, rfl⟩ := List.mem_map.1 hl
    intro hc
    rw [String.toList_append, List.mem_append] at hc
    rcases hc with hc | hc
    · revert hc
      decide
    · have hin := (Py.of_mem_split hy hc).1
      rw [String.toList_intercalate] at hin
      rcases Py.mem_intercalate hin with heq | ⟨t, ht, hct⟩
      · cases heq
      · obtain ⟨z, hz, rfl⟩ := List.mem_map.1 ht
        exact (f.of_address (hnames z hz) hct).2.1 rfl
  · rcases List.mem_cons.1 hl with rfl | hl
    · exact (hfits.quiet _ (by simp)).1
    · rcases List.mem_cons.1 hl with rfl | hl
      · decide
      · cases List.mem_singleton.1 hl
        decide

theorem Foreign.sublist {others' : List String} (h : Foreign f others)
    (hsub : others'.Sublist others) : Foreign f others' := fun l hl => h l (hsub.subset hl)

/-- The edits leave the block in front, and remove the first group of other lines for each
keyword. -/
theorem edits_front (hblock : ∀ l ∈ block, '#' ∉ l.toList) (hothers : Foreign f others) :
    keywords.foldl (fun lines keyword => removeAfter keyword lines)
        (keywords.foldl (fun lines keyword => removeBefore keyword lines)
          (resolvMarks.opening :: (block ++ resolvMarks.closing :: others))) =
      resolvMarks.opening :: (block ++ resolvMarks.closing :: pass kinds others) := by
  have hcomment : ∀ m : String, '#' ∈ m.toList → ∀ l ∈ block, ¬ m.toList <:+: l.toList :=
    fun m hm l hl hin => hblock l hl (hin.subset hm)
  have hnone : ∀ l ∈ block ++ resolvMarks.closing :: others, openingOf l = none := by
    intro l hl
    rcases List.mem_append.1 hl with hl | hl
    · exact openingOf_eq_none (hcomment _ (by decide) l hl)
    · rcases List.mem_cons.1 hl with rfl | hl
      · decide
      · exact openingOf_eq_none (hothers l hl).1
  have hbefore : ∀ ks : List String, ks ⊆ keywords →
      ks.foldl (fun lines keyword => removeBefore keyword lines)
        (resolvMarks.opening :: (block ++ resolvMarks.closing :: others)) =
      resolvMarks.opening :: (block ++ resolvMarks.closing :: others) := by
    intro ks hks
    induction ks with
    | nil => rfl
    | cons k ks ih =>
      rw [List.cons_subset] at hks
      rw [List.foldl_cons, removeBefore_front hks.1 hnone, ih hks.2]
  have hafter : ∀ (ks : List String) (others : List String), Foreign f others →
      ks.foldl (fun lines keyword => removeAfter keyword lines)
        (resolvMarks.opening :: (block ++ resolvMarks.closing :: others)) =
      resolvMarks.opening ::
        (block ++ resolvMarks.closing :: pass (ks.map configures) others) := by
    intro ks
    induction ks with
    | nil => exact fun _ _ => rfl
    | cons k ks ih =>
      intro others hothers
      rw [List.foldl_cons, removeAfter_front
        (fun l hl => notClosing_of_not_infix (hcomment _ (by decide) l hl))
        fun l hl => notClosing_of_not_infix (hothers l hl).2.1]
      exact ih _ (hothers.sublist (FirstGroup.dropGroup_sublist _ _))
  rw [hbefore keywords (List.Subset.refl _), hafter keywords others hothers, kinds]

/-- A run on a file with a block in front, or without one. -/
theorem updateResolvConf_front (hblock : ∀ l ∈ block, '#' ∉ l.toList) (hothers : Foreign f others)
    (hlines : lines = marked resolvMarks block ++ others)
    (hnew : ∀ l ∈ vars.block (nameserverentries f vars lines), '#' ∉ l.toList) :
    updateResolvConf f vars lines =
      marked resolvMarks (vars.block (nameserverentries f vars lines)) ++ pass kinds others := by
  have hunmarked : Unmarked resolvMarks block :=
    ⟨fun hin => hblock _ hin (by decide), fun hin => hblock _ hin (by decide)⟩
  have hunmarked' : Unmarked resolvMarks others :=
    ⟨fun hin => (hothers _ hin).1 (List.infix_refl _),
      fun hin => (hothers _ hin).2.1 (List.infix_refl _)⟩
  have hplace : ManagedBlock.place resolvMarks lines = ([], others) := by
    rw [hlines]
    exact ManagedBlock.place_front rfl hunmarked' hunmarked
  have hne : vars.block (nameserverentries f vars lines) ≠ [] := by simp [ResolvVars.block]
  rw [updateResolvConf, setBlock, hplace]
  dsimp only
  rw [List.nil_append, edits_front hnew hothers, ManagedBlock.marked_of_ne_nil hne]
  simp

/-- Line by line, a file gives no address that a part of it does not. -/
theorem configured_of_foreign (h : Foreign f others) :
    configuredNameservers f others = (others.flatMap (lineNameservers f)).filterMap f.ipaddr := by
  have hread := @findNameservers_append f others [] fun l hl => (h l hl).2.2
  rw [List.append_nil] at hread
  rw [configuredNameservers, hread, findNameservers, List.append_nil]

theorem configured_sublist {others' : List String} (h : Foreign f others)
    (hsub : others'.Sublist others) (hx : x ∈ configuredNameservers f others') :
    x ∈ configuredNameservers f others := by
  rw [configured_of_foreign (h.sublist hsub)] at hx
  rw [configured_of_foreign h]
  obtain ⟨s, hs, hxs⟩ := List.mem_filterMap.1 hx
  obtain ⟨l, hl, hsl⟩ := List.mem_flatMap.1 hs
  exact List.mem_filterMap.2 ⟨s, List.mem_flatMap.2 ⟨l, hsub.subset hl, hsl⟩, hxs⟩

/-- The addresses of a file are in normal form. -/
theorem normal_of_mem_configured (hx : x ∈ configuredNameservers f lines) :
    f.ipaddr x = some x := by
  obtain ⟨s, -, hs⟩ := List.mem_filterMap.1 hx
  exact (f.normal s x hs).1

/-- The nameservers that the runs want, those of the last run first, and those of the file. -/
def nameserversAfter (f : Filters) (runs : List ResolvVars) (lines : List String) : List String :=
  (runs.reverse.flatMap ResolvVars.wantedNameservers ++ configuredNameservers f lines).eraseDups

theorem nameserversAfter_append : nameserversAfter f (runs ++ [vars]) lines =
    (vars.wantedNameservers ++ nameserversAfter f runs lines).eraseDups := by
  rw [nameserversAfter, nameserversAfter, Unique.eraseDups_append_eraseDups, List.reverse_append,
    List.reverse_singleton, List.singleton_append, List.flatMap_cons, List.append_assoc]

/-- What the runs have left of a file: the block of the last one in front, and the addresses that
the file now has. -/
structure RunsLeave (f : Filters) (runs : List ResolvVars) (lines block final : List String) :
    Prop where
  final_eq : final = marked resolvMarks block ++ (pass kinds)^[runs.length] lines
  not_comment : ∀ l ∈ block, '#' ∉ l.toList
  block_eq : ∀ vars, runs.getLast? = some vars →
    block = vars.block (",".intercalate (nameserversAfter f runs lines))
  configured : ∀ names, (names ++ configuredNameservers f final).eraseDups =
    (names ++ nameserversAfter f runs lines).eraseDups

theorem passes_sublist (n : Nat) (lines : List String) :
    ((pass kinds)^[n] lines).Sublist lines := by
  induction n with
  | zero => exact .refl _
  | succ n ih =>
    rw [Function.iterate_succ_apply']
    exact (FirstGroup.pass_sublist _ _).trans ih

theorem normal_of_mem_nameserversAfter (hruns : ∀ vars ∈ runs, vars.Fits f)
    (hx : x ∈ nameserversAfter f runs lines) : f.ipaddr x = some x := by
  rw [nameserversAfter, List.mem_eraseDups, List.mem_append, List.mem_flatMap] at hx
  rcases hx with ⟨vars, hvars, hx⟩ | hx
  · exact (hruns vars (List.mem_reverse.1 hvars)).addresses x hx
  · exact normal_of_mem_configured hx

/-- The nameservers of the next run. -/
theorem nameserverentries_leave {final : List String} (h : RunsLeave f runs lines block final)
    (hvars : vars.Fits f) : nameserverentries f vars final =
      ",".intercalate (nameserversAfter f (runs ++ [vars]) lines) := by
  have hlower : ∀ x ∈ vars.wantedNameservers ++ configuredNameservers f final, f.lower x = x := by
    intro x hx
    refine (f.normal x x ?_).2
    rcases List.mem_append.1 hx with hx | hx
    · exact hvars.addresses x hx
    · exact normal_of_mem_configured hx
  rw [nameserverentries, uniqueBy_eq_eraseDups hlower, h.configured, nameserversAfter_append]

theorem leave_runs (hlines : Foreign f lines) (hruns : ∀ vars ∈ runs, vars.Fits f) :
    ∃ block, RunsLeave f runs lines block
      (runs.foldl (fun lines vars => updateResolvConf f vars lines) lines) := by
  induction runs using List.reverseRecOn with
  | nil =>
    refine ⟨[], rfl, nofun, nofun, fun names => ?_⟩
    exact (Unique.eraseDups_append_eraseDups names (configuredNameservers f lines)).symm
  | append_singleton runs vars ih =>
    have hall := hruns
    rw [List.forall_mem_append] at hruns
    obtain ⟨block, hleave⟩ := ih hruns.1
    have hvars : vars.Fits f := hruns.2 vars (.head _)
    rw [List.foldl_append, List.foldl_cons, List.foldl_nil]
    generalize runs.foldl (fun lines vars => updateResolvConf f vars lines) lines = file at hleave ⊢
    have hentries := nameserverentries_leave hleave hvars
    have hnames : ∀ x ∈ nameserversAfter f (runs ++ [vars]) lines, f.ipaddr x = some x :=
      fun x hx => normal_of_mem_nameserversAfter hall hx
    have hothers : Foreign f ((pass kinds)^[runs.length] lines) :=
      hlines.sublist (passes_sublist _ _)
    have hcomment : ∀ l ∈ vars.block (nameserverentries f vars file), '#' ∉ l.toList := by
      rw [hentries]
      exact fun l hl => not_comment_of_mem_block hvars hnames hl
    have hfinal := updateResolvConf_front hleave.not_comment hothers hleave.final_eq hcomment
    rw [← Function.iterate_succ_apply' (pass kinds), hentries] at hfinal
    rw [hfinal]
    rw [hentries] at hcomment
    refine ⟨_, by rw [List.length_append]; rfl, hcomment, fun last hlast => ?_, fun names => ?_⟩
    · rw [List.getLast?_concat] at hlast
      cases hlast
      rfl
    · rw [configured_block hvars hnames, ← List.append_assoc]
      refine Unique.eraseDups_append_of_subset fun x hx => List.mem_append_right _ ?_
      rw [nameserversAfter, List.mem_eraseDups]
      exact List.mem_append_right _ (configured_sublist hlines (passes_sublist _ _) hx)

/-- After any sequence of runs the file gives every nameserver that any of the runs has wanted or
that it gave before, those of the last run first, and no other, as the tasks read it. -/
theorem nameservers_accumulate (hlines : Foreign f lines) (hruns : ∀ vars ∈ runs, vars.Fits f) :
    let final := runs.foldl (fun lines vars => updateResolvConf f vars lines) lines
    (configuredNameservers f final).eraseDups =
      (runs.reverse.flatMap ResolvVars.wantedNameservers ++
        configuredNameservers f lines).eraseDups := by
  intro final
  obtain ⟨block, hleave⟩ := leave_runs hlines hruns
  have h := hleave.configured []
  rw [List.nil_append, List.nil_append, nameserversAfter, Unique.eraseDups_eraseDups] at h
  exact h

/-- After at least as many runs as there were lines with any one keyword, the file is the block of
the last run and the lines without a keyword. -/
theorem resolv_conf_settles (hlines : Foreign f lines) (hruns : ∀ vars ∈ runs, vars.Fits f)
    (hlast : runs.getLast? = some vars)
    (hcount : ∀ keyword ∈ keywords, lines.countP (configures keyword) ≤ runs.length) :
    runs.foldl (fun lines vars => updateResolvConf f vars lines) lines =
      marked resolvMarks (vars.block (",".intercalate (nameserversAfter f runs lines))) ++
        lines.filter fun l => keywords.all fun keyword => !configures keyword l := by
  obtain ⟨block, hleave⟩ := leave_runs hlines hruns
  have hpasses : (pass kinds)^[runs.length] lines =
      lines.filter fun l => kinds.all fun p => !p l := by
    refine FirstGroup.passes_eq_filter fun p hp => ?_
    obtain ⟨keyword, hkeyword, rfl⟩ := List.mem_map.1 hp
    exact hcount keyword hkeyword
  rw [hleave.final_eq, hleave.block_eq vars hlast, hpasses, kinds]
  simp only [List.all_map, Function.comp_def]

end

/-! ## Addresses of version 4 -/

open Py.IpAddress (parse4 parse4_text)

/-- Full stops and digits are the only characters of an address. -/
theorem range_of_parse4 {s : String} {n : Nat} (hn : parse4 s = some n) {c : Char}
    (hc : c ∈ s.toList) : 46 ≤ c.toNat ∧ c.toNat ≤ 57 := by
  rcases (parse4_text hn).1 c hc with hdigit | rfl
  · have hrange : 48 ≤ c.toNat ∧ c.toNat ≤ 57 := by
      simpa [Char.isDigit, UInt32.le_iff_toNat_le] using hdigit
    exact ⟨by omega, hrange.2⟩
  · decide

theorem lowerAscii_of_parse4 {s : String} {n : Nat} (hn : parse4 s = some n) :
    lowerAscii s = s := by
  have hmap : s.toList.map Char.toLower = s.toList := by
    refine (List.map_congr_left fun c hc => ?_).trans (List.map_id s.toList)
    have hle := (range_of_parse4 hn hc).2
    refine dif_neg fun h => ?_
    have hupper : 65 ≤ c.toNat := UInt32.le_iff_toNat_le.1 h.1
    omega
  rw [lowerAscii, hmap, String.ofList_toList]

/-- The filters on ASCII texts and addresses of version 4. -/
def Filters.ipv4 : Filters where
  tbl := .ascii
  isspace_ascii _ _ := rfl
  lower := lowerAscii
  ipaddr s := (parse4 s).map fun _ => s
  normal s t h := by
    obtain ⟨n, hn, rfl⟩ := Option.map_eq_some_iff.1 h
    exact ⟨h, lowerAscii_of_parse4 hn⟩
  plain s t h := by
    obtain ⟨n, hn, rfl⟩ := Option.map_eq_some_iff.1 h
    refine ⟨fun hempty => ?_, fun c hc => ?_⟩
    · rw [hempty] at hn
      cases hn
    · obtain ⟨hle, hge⟩ := range_of_parse4 hn hc
      exact ⟨hle, hge.trans (by decide)⟩
  not_options s := by
    rw [Option.map_eq_none_iff, Option.eq_none_iff_forall_ne_some]
    intro n hn
    have ho := (parse4_text hn).1 'o' (by simp)
    revert ho
    decide

/-- A file with two groups of nameservers. -/
def dhcpResolvConf : List String :=
  ["search corp.example", "nameserver 10.0.0.2", "# second network", "nameserver 10.0.0.3"]

/-- The first run is before the cluster DNS, the second one after it, and the third one has another
nameserver. -/
def resolvRuns : List ResolvVars :=
  let vars : ResolvVars :=
    { dnsDomain := "cluster.local", skydnsServer := "10.233.0.3",
      skydnsServerSecondary := "10.233.0.4", nameservers := ["8.8.8.8"] }
  [{ vars with dnsEarly := true }, vars, { vars with nameservers := ["1.1.1.1"] }]

theorem foreign_dhcpResolvConf : Foreign .ipv4 dhcpResolvConf := by
  have hall : ∀ l ∈ dhcpResolvConf, ¬ resolvMarks.opening.toList <:+: l.toList ∧
      ¬ resolvMarks.closing.toList <:+: l.toList ∧
      ∀ rest ∈ afterNameserver l, Filters.ipv4.lstrip rest ≠ "" := by
    decide +kernel
  exact hall

theorem fits_resolvRuns : ∀ vars ∈ resolvRuns, vars.Fits .ipv4 := by
  intro vars hvars
  have hall : (∀ l ∈ [vars.domainentry, vars.searchentries, vars.ndotsLine],
      '#' ∉ l.toList ∧ afterNameserver l = none) ∧
      ∀ x ∈ vars.wantedNameservers, Filters.ipv4.ipaddr x = some x := by
    revert vars
    decide +kernel
  exact ⟨hall.1, hall.2⟩

/-- The nameserver of the first two runs is still there after the third one. -/
theorem nameservers_accumulate_three :
    (configuredNameservers .ipv4 (resolvRuns.foldl
      (fun lines vars => updateResolvConf .ipv4 vars lines) dhcpResolvConf)).eraseDups =
      ["169.254.25.10", "10.233.0.3", "1.1.1.1", "8.8.8.8", "10.0.0.2", "10.0.0.3"] :=
  (nameservers_accumulate foreign_dhcpResolvConf fits_resolvRuns).trans (by decide +kernel)

/-- The first run leaves a nameserver after the block, and the second one removes it. -/
theorem resolv_conf_settles_two :
    let update := fun lines vars => updateResolvConf .ipv4 vars lines
    ((resolvRuns.take 1).foldl update dhcpResolvConf).getLast? = some "nameserver 10.0.0.3" ∧
    (resolvRuns.take 2).foldl update dhcpResolvConf =
      ["# Ansible entries BEGIN", "domain cluster.local",
        "search default.svc.cluster.local svc.cluster.local", "nameserver 169.254.25.10",
        "nameserver 10.233.0.3", "nameserver 8.8.8.8", "nameserver 10.0.0.2",
        "nameserver 10.0.0.3", "options ndots:2", "options timeout:2", "options attempts:2",
        "# Ansible entries END", "# second network"] := by
  refine ⟨by decide +kernel, ?_⟩
  refine (resolv_conf_settles foreign_dhcpResolvConf (fun vars hvars =>
    fits_resolvRuns vars (List.mem_of_mem_take hvars)) rfl (by decide +kernel)).trans ?_
  decide +kernel

end Kubespray
