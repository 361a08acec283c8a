import Kubespray.Lib.PyStr

/-!
# The module `kube`

`library/kube.py` with `state=absent`: the calls of `kubectl` that `KubeManager` makes, and what the
run leaves of the cluster. `KubeManager.exists` takes every failure of `kubectl get` for the absence
of the resources, so a run that cannot see them ends as if they were gone. `absent_removes_iff` says
when a successful run has removed what its options select; `absent_removes_fails` is a list of two
files of which one resource exists, and stays.
-/

universe u v

namespace Kubespray

/-! ## Command lines -/

/-- An argument of `kubectl`. -/
inductive KubectlArg where
  /-- The verb, a resource type or a name. -/
  | word (text : String)
  | server (url : String)
  | logLevel (level : Nat)
  | ns (name : String)
  | filename (files : List String)
  | recursive
  | selector (label : String)
  | all
  | allNamespaces
  | ignoreNotFound
  | noHeaders
  deriving DecidableEq, Repr

/-- The text of an argument. -/
def KubectlArg.text : KubectlArg → String
  | .word text => text
  | .server url => "--server=" ++ url
  | .logLevel level => "--v=" ++ toString level
  | .ns name => "--namespace=" ++ name
  | .filename files => "--filename=" ++ ",".intercalate files
  | .recursive => "--recursive=True"
  | .selector label => "--selector=" ++ label
  | .all => "--all"
  | .allNamespaces => "--all-namespaces"
  | .ignoreNotFound => "--ignore-not-found"
  | .noHeaders => "--no-headers"

/-- What the arguments of a call select. -/
inductive KubeTarget where
  /-- The resources of the listed files, and of the directories below them if `recursive`. -/
  | files (ns : Option String) (filenames : List String) (recursive : Bool)
  /-- The resources of a type, or one of them, in a namespace or in all. -/
  | resource (ns : Option String) (allNamespaces : Bool) (words : List String)
      (selector : Option String)
  deriving DecidableEq, Repr

/-- The target names its resources one by one: those of files, or `TYPE NAME` or `TYPE/NAME`. -/
def KubeTarget.Named : KubeTarget → Prop
  | .files .. => True
  | .resource _ _ words _ => 2 ≤ words.length ∨ ∃ w ∈ words, '/' ∈ w.toList

instance (t : KubeTarget) : Decidable t.Named := by
  cases t <;> unfold KubeTarget.Named <;> infer_instance

namespace KubectlArg

/-- The verb or a word after it. -/
def word? : KubectlArg → Option String
  | .word text => some text
  | _ => none

/-- The namespace that the argument sets. -/
def ns? : KubectlArg → Option String
  | .ns name => some name
  | _ => none

/-- The files that the argument lists. -/
def filename? : KubectlArg → Option (List String)
  | .filename files => some files
  | _ => none

/-- The label selector that the argument sets. -/
def selector? : KubectlArg → Option String
  | .selector label => some label
  | _ => none

end KubectlArg

/-- The verb and the words after it. -/
def kubectlWords (args : List KubectlArg) : List String := args.filterMap KubectlArg.word?

/-- The target of a call. -/
def kubectlTarget (args : List KubectlArg) : KubeTarget :=
  match args.findSome? KubectlArg.filename? with
  | some files => .files (args.findSome? KubectlArg.ns?) files (args.contains .recursive)
  | none => .resource (args.findSome? KubectlArg.ns?) (args.contains .allNamespaces)
      (kubectlWords args).tail (args.findSome? KubectlArg.selector?)

/-- What `module.run_command` returns. -/
structure CommandResult where
  /-- The exit status. -/
  rc : Int
  /-- Standard output. -/
  out : String
  /-- Standard error. -/
  err : String
  deriving DecidableEq, Repr

/-- `kubectl` on a cluster with the states `σ`, whose resources are in `ρ`. -/
structure Kubectl (σ : Type u) (ρ : Type v) where
  /-- A call: its result and the state it leaves. -/
  run : List KubectlArg → σ → CommandResult × σ
  /-- The resource exists. -/
  Exists : σ → ρ → Prop
  /-- The resource is one of the target's. -/
  Selects : KubeTarget → ρ → Prop
  /-- The call fails, whatever exists: the API server does not answer, or the arguments are not
  accepted. -/
  Fails : List KubectlArg → σ → Prop
  /-- The line that `get` prints for a resource. -/
  line : ρ → String
  /-- All namespaces have what one of them has. -/
  selects_allNamespaces : ∀ {ns words selector r}, Selects (.resource ns false words selector) r →
    Selects (.resource ns true words selector) r
  /-- `get` exits non-zero if it fails or a resource that is named does not exist. -/
  get_nonzero : ∀ {args s}, (kubectlWords args).head? = some "get" →
    (Fails args s ∨ (kubectlTarget args).Named ∧ ∃ r, Selects (kubectlTarget args) r ∧
      ¬ Exists s r) →
    (run args s).1.rc ≠ 0
  /-- Otherwise it prints a line for each resource that is selected. -/
  get_zero : ∀ {args s}, (kubectlWords args).head? = some "get" →
    ¬ (Fails args s ∨ (kubectlTarget args).Named ∧ ∃ r, Selects (kubectlTarget args) r ∧
      ¬ Exists s r) →
    (run args s).1.rc = 0 ∧ ∃ rs : List ρ,
      (∀ r, r ∈ rs ↔ Selects (kubectlTarget args) r ∧ Exists s r) ∧
        (run args s).1.out = String.join (rs.map fun r => line r ++ "\n")
  /-- `get` leaves the resources as they are. -/
  get_exists : ∀ {args s r}, (kubectlWords args).head? = some "get" →
    (Exists (run args s).2 r ↔ Exists s r)
  /-- `delete` exits zero only if it deleted everything that is selected. -/
  delete_zero : ∀ {args s}, (kubectlWords args).head? = some "delete" → (run args s).1.rc = 0 →
    ∀ r, Selects (kubectlTarget args) r → ¬ Exists (run args s).2 r

/-! ## `KubeManager` -/

/-- The fields of `module.params` that the calls are built from; `ns` is `namespace`. -/
structure KubeParams where
  name : Option String := none
  filename : Option (List String) := none
  ns : Option String := none
  resource : Option String := none
  label : Option String := none
  server : Option String := none
  kubectl : Option String := none
  force : Bool := false
  all : Bool := false
  logLevel : Nat := 0
  recursive : Bool := false
  deriving DecidableEq, Repr

/-- A text that Python takes for true. -/
def given (s : Option String) : Option String := s.filter (· ≠ "")

/-- The fields of `KubeManager` that the calls are built from. -/
structure KubeManager where
  /-- `self.kubectl`. -/
  kubectl : String
  /-- `self.base_cmd` after the program. -/
  baseCmd : List KubectlArg
  all : Bool
  force : Bool
  name : Option String
  filename : List String
  resource : Option String
  label : Option String
  recursive : Bool

namespace KubeManager

variable {σ : Type u} {ρ : Type v}

/-- `KubeManager.__init__`; `binPath` is what `get_bin_path` finds. -/
def init (tbl : Py.CharTable) (binPath : String) (params : KubeParams) : KubeManager where
  kubectl := params.kubectl.getD binPath
  baseCmd :=
    ((given params.server).map .server).toList ++
      (if params.logLevel = 0 then [] else [.logLevel params.logLevel]) ++
      ((given params.ns).map .ns).toList
  all := params.all
  force := params.force
  name := params.name
  filename := (params.filename.getD []).map (Py.strip tbl)
  resource := params.resource
  label := params.label
  recursive := params.recursive

/-- `_execute`; an error is the message of `fail_json`. -/
def execute (K : Kubectl σ ρ) (m : KubeManager) (cmd : List KubectlArg) (s : σ) :
    Except String (List String) × σ :=
  let args := m.baseCmd ++ cmd
  let (result, s') := K.run args s
  if result.rc ≠ 0 then
    (.error ("error running kubectl (" ++ " ".intercalate (m.kubectl :: args.map KubectlArg.text) ++
      ") command (rc=" ++ toString result.rc ++ "), out='" ++ result.out ++ "', err='" ++
      result.err ++ "'"), s')
  else (.ok (Py.splitlines result.out), s')

/-- `_execute_nofail`. -/
def executeNofail (K : Kubectl σ ρ) (m : KubeManager) (cmd : List KubectlArg) (s : σ) :
    Option (List String) × σ :=
  let (result, s') := K.run (m.baseCmd ++ cmd) s
  (if result.rc ≠ 0 then none else some (Py.splitlines result.out), s')

/-- The command of `exists`. -/
def existsCmd (m : KubeManager) : Except String (List KubectlArg) :=
  if m.filename ≠ [] then
    .ok ([.word "get", .filename m.filename] ++ (if m.recursive then [.recursive] else []) ++
      [.noHeaders])
  else match given m.resource with
    | none => .error "resource required without filename"
    | some resource =>
      .ok ([.word "get", .word resource] ++ ((given m.name).map .word).toList ++
        ((given m.label).map .selector).toList ++ (if m.all then [.allNamespaces] else []) ++
        [.noHeaders])

/-- The command of `delete`. -/
def deleteCmd (m : KubeManager) : Except String (List KubectlArg) :=
  if m.filename ≠ [] then
    .ok ([.word "delete", .filename m.filename] ++ if m.recursive then [.recursive] else [])
  else match given m.resource with
    | none => .error "resource required to delete without filename"
    | some resource =>
      .ok ([.word "delete", .word resource] ++ ((given m.name).map .word).toList ++
        ((given m.label).map .selector).toList ++ (if m.all then [.all] else []) ++
        (if m.force then [.ignoreNotFound] else []) ++ if m.recursive then [.recursive] else [])

/-- `exists`. -/
def existsResult (K : Kubectl σ ρ) (m : KubeManager) (s : σ) : Except String Bool × σ :=
  match m.existsCmd with
  | .error msg => (.error msg, s)
  | .ok cmd =>
    match m.executeNofail K cmd s with
    | (none, s') => (.ok false, s')
    | (some lines, s') => (.ok !lines.isEmpty, s')

/-- `delete` after its check. -/
def deleteAll (K : Kubectl σ ρ) (m : KubeManager) (s : σ) : Except String (List String) × σ :=
  match m.deleteCmd with
  | .error msg => (.error msg, s)
  | .ok cmd => m.execute K cmd s

/-- `delete`. -/
def delete (K : Kubectl σ ρ) (m : KubeManager) (s : σ) : Except String (List String) × σ :=
  if m.force then m.deleteAll K s
  else match m.existsResult K s with
    | (.error msg, s') => (.error msg, s')
    | (.ok false, s') => (.ok [], s')
    | (.ok true, s') => m.deleteAll K s'

end KubeManager

/-- What the options select; `get` looks into all namespaces if `all` is set, `delete` into one. -/
def KubeManager.target (m : KubeManager) (allNamespaces : Bool) : KubeTarget :=
  let ns := m.baseCmd.findSome? KubectlArg.ns?
  if m.filename ≠ [] then .files ns m.filename m.recursive
  else .resource ns allNamespaces ((given m.resource).toList ++ (given m.name).toList)
    (given m.label)

/-- `main` with `state=absent`: the message of `exit_json` or of `fail_json`. -/
def kubeAbsent {σ : Type u} {ρ : Type v} (K : Kubectl σ ρ) (tbl : Py.CharTable) (binPath : String)
    (params : KubeParams) (s : σ) : Except String String × σ :=
  match (KubeManager.init tbl binPath params).delete K s with
  | (.error msg, s') => (.error msg, s')
  | (.ok result, s') => (.ok ("success: " ++ " ".intercalate result), s')

/-! ## The calls and their targets -/

/-- An argument of `base_cmd`. -/
def KubectlArg.IsBase : KubectlArg → Prop
  | .server _ | .logLevel _ | .ns _ => True
  | _ => False

namespace KubeManager

variable {m : KubeManager} {base cmd : List KubectlArg}

theorem isBase_baseCmd (tbl : Py.CharTable) (binPath : String) (params : KubeParams) :
    ∀ a ∈ (init tbl binPath params).baseCmd, a.IsBase := by
  intro a ha
  simp only [init, List.mem_append, Option.mem_toList, Option.map_eq_some_iff] at ha
  obtain (⟨url, -, rfl⟩ | hlevel) | ⟨name, -, rfl⟩ := ha
  · trivial
  · split at hlevel
    · cases hlevel
    · cases List.mem_singleton.1 hlevel
      trivial
  · trivial

/-- What no argument of `base_cmd` gives is found in the command. -/
theorem findSome?_base {α : Type} {f : KubectlArg → Option α} (hbase : ∀ a ∈ base, a.IsBase)
    (hf : ∀ a, a.IsBase → f a = none) : (base ++ cmd).findSome? f = cmd.findSome? f := by
  rw [List.findSome?_append, List.findSome?_eq_none_iff.2 fun a ha => hf a (hbase a ha)]
  rfl

theorem contains_base {a : KubectlArg} (hbase : ∀ a ∈ base, a.IsBase) (ha : ¬ a.IsBase) :
    (base ++ cmd).contains a = cmd.contains a := by
  have hnot : a ∉ base := fun h => ha (hbase a h)
  simp [hnot]

theorem kubectlWords_base (hbase : ∀ a ∈ base, a.IsBase) :
    kubectlWords (base ++ cmd) = kubectlWords cmd := by
  have hnone : base.filterMap KubectlArg.word? = [] := by
    refine List.filterMap_eq_nil_iff.2 fun a ha => ?_
    have hbase := hbase a ha
    cases a <;> first | rfl | cases hbase
  rw [kubectlWords, List.filterMap_append, hnone]
  rfl

/-- Of the target of a call the namespace comes from `base_cmd` and the rest from the command. -/
theorem kubectlTarget_base (hbase : ∀ a ∈ base, a.IsBase)
    (hns : cmd.findSome? KubectlArg.ns? = none) :
    kubectlTarget (base ++ cmd) =
      match cmd.findSome? KubectlArg.filename? with
      | some files => .files (base.findSome? KubectlArg.ns?) files (cmd.contains .recursive)
      | none => .resource (base.findSome? KubectlArg.ns?) (cmd.contains .allNamespaces)
          (kubectlWords cmd).tail (cmd.findSome? KubectlArg.selector?) := by
  have hfile : ∀ a : KubectlArg, a.IsBase → a.filename? = none := by
    intro a ha
    cases a <;> first | rfl | cases ha
  have hsel : ∀ a : KubectlArg, a.IsBase → a.selector? = none := by
    intro a ha
    cases a <;> first | rfl | cases ha
  rw [kubectlTarget, findSome?_base hbase hfile, findSome?_base hbase hsel,
    contains_base hbase id, contains_base hbase id, kubectlWords_base hbase,
    List.findSome?_append, hns, Option.or_none]

/-- The call of `exists` is a `get` of what the options select. -/
theorem existsCmd_call (hbase : ∀ a ∈ m.baseCmd, a.IsBase) (h : m.existsCmd = .ok cmd) :
    (kubectlWords (m.baseCmd ++ cmd)).head? = some "get" ∧
      kubectlTarget (m.baseCmd ++ cmd) = m.target m.all := by
  rw [kubectlWords_base hbase]
  unfold existsCmd at h
  split at h
  · next hfile =>
    cases h
    refine ⟨rfl, ?_⟩
    rw [target, if_pos hfile, kubectlTarget_base hbase]
    all_goals cases m.recursive <;> rfl
  · next hfile =>
    cases hres : given m.resource with
    | none =>
      rw [hres] at h
      cases h
    | some resource =>
      rw [hres] at h
      cases h
      refine ⟨rfl, ?_⟩
      rw [target, if_neg hfile, hres, kubectlTarget_base hbase]
      all_goals cases given m.name <;> cases given m.label <;> cases m.all <;> rfl

/-- The call of `delete` is a `delete` of what the options select. -/
theorem deleteCmd_call (hbase : ∀ a ∈ m.baseCmd, a.IsBase) (h : m.deleteCmd = .ok cmd) :
    (kubectlWords (m.baseCmd ++ cmd)).head? = some "delete" ∧
      kubectlTarget (m.baseCmd ++ cmd) = m.target false := by
  rw [kubectlWords_base hbase]
  unfold deleteCmd at h
  split at h
  · next hfile =>
    cases h
    refine ⟨rfl, ?_⟩
    rw [target, if_pos hfile, kubectlTarget_base hbase]
    all_goals cases m.recursive <;> rfl
  · next hfile =>
    cases hres : given m.resource with
    | none =>
      rw [hres] at h
      cases h
    | some resource =>
      rw [hres] at h
      cases h
      refine ⟨rfl, ?_⟩
      rw [target, if_neg hfile, hres, kubectlTarget_base hbase]
      all_goals
        cases given m.name <;> cases given m.label <;> cases m.all <;> cases m.force <;>
          cases m.recursive <;> rfl

/-! ## What a run leaves -/

section
variable {σ : Type u} {ρ : Type v} {K : Kubectl σ ρ} {s : σ}

/-- The `get` of `exists` exits non-zero: it fails, or a resource that the options name is
missing. -/
def GetFails (K : Kubectl σ ρ) (m : KubeManager) (cmd : List KubectlArg) (s : σ) : Prop :=
  K.Fails (m.baseCmd ++ cmd) s ∨
    (m.target m.all).Named ∧ ∃ r, K.Selects (m.target m.all) r ∧ ¬ K.Exists s r

/-- `exists` leaves the resources as they are and is true iff `get` sees one of those selected. -/
theorem existsResult_spec (hbase : ∀ a ∈ m.baseCmd, a.IsBase) (h : m.existsCmd = .ok cmd) :
    ∃ b s', m.existsResult K s = (.ok b, s') ∧ (∀ r, K.Exists s' r ↔ K.Exists s r) ∧
      (b = true ↔ ¬ m.GetFails K cmd s ∧ ∃ r, K.Selects (m.target m.all) r ∧ K.Exists s r) := by
  obtain ⟨hverb, htarget⟩ := existsCmd_call hbase h
  have hkeeps : ∀ r, K.Exists (K.run (m.baseCmd ++ cmd) s).2 r ↔ K.Exists s r :=
    fun _ => K.get_exists hverb
  by_cases hfails : m.GetFails K cmd s
  · have hrc : (K.run (m.baseCmd ++ cmd) s).1.rc ≠ 0 := K.get_nonzero hverb (htarget ▸ hfails)
    refine ⟨false, _, ?_, hkeeps, by simp [hfails]⟩
    simp [existsResult, h, executeNofail, hrc]
  · have hzero := K.get_zero (s := s) hverb
    rw [htarget] at hzero
    obtain ⟨hrc, rs, hrs, hout⟩ := hzero hfails
    have hlines : (Py.splitlines (K.run (m.baseCmd ++ cmd) s).1.out).isEmpty = rs.isEmpty := by
      rw [Bool.eq_iff_iff, List.isEmpty_iff, List.isEmpty_iff, Py.splitlines_eq_nil_iff, hout]
      cases rs with
      | nil => simp
      | cons r rs => simp
    refine ⟨!rs.isEmpty, _, ?_, hkeeps, ?_⟩
    · simp [existsResult, h, executeNofail, hrc, hlines]
    · simp only [hfails, not_false_eq_true, true_and, Bool.not_eq_true',
        List.isEmpty_eq_false_iff_exists_mem, hrs]

/-- `delete` without `force` calls the command iff `exists` is true. -/
theorem delete_spec (hbase : ∀ a ∈ m.baseCmd, a.IsBase) (hforce : m.force = false)
    (h : m.existsCmd = .ok cmd) :
    ∃ b s', m.existsResult K s = (.ok b, s') ∧ (∀ r, K.Exists s' r ↔ K.Exists s r) ∧
      (b = true ↔ ¬ m.GetFails K cmd s ∧ ∃ r, K.Selects (m.target m.all) r ∧ K.Exists s r) ∧
      m.delete K s = if b then m.deleteAll K s' else (.ok [], s') := by
  obtain ⟨b, s', hexists, hkeeps, hb⟩ := existsResult_spec (K := K) (s := s) hbase h
  refine ⟨b, s', hexists, hkeeps, hb, ?_⟩
  rw [delete, hforce, hexists]
  cases b <;> rfl

/-- A successful `delete` command leaves nothing of what the options select. -/
theorem deleteAll_spec {lines : List String} {s' : σ} (hbase : ∀ a ∈ m.baseCmd, a.IsBase)
    (h : m.deleteAll K s = (.ok lines, s')) : ∀ r, K.Selects (m.target false) r →
      ¬ K.Exists s' r := by
  unfold deleteAll at h
  split at h
  · cases h
  · next cmd hcmd =>
    obtain ⟨hverb, htarget⟩ := deleteCmd_call hbase hcmd
    simp only [execute] at h
    split at h
    · cases h
    · next hrc =>
      cases h
      exact htarget ▸ K.delete_zero hverb (not_not.1 hrc)

/-- `get` looks at all that `delete` would remove. -/
theorem selects_target {r : ρ} (h : K.Selects (m.target false) r) :
    K.Selects (m.target m.all) r := by
  cases hall : m.all with
  | false => exact h
  | true =>
    unfold target at h ⊢
    by_cases hfile : m.filename ≠ []
    · rwa [if_pos hfile] at h ⊢
    · rw [if_neg hfile] at h ⊢
      exact K.selects_allNamespaces h

end

/-- The options have a list of files or a resource. -/
def HasTarget (m : KubeManager) : Prop := m.filename ≠ [] ∨ given m.resource ≠ none

theorem existsCmd_isOk (h : m.HasTarget) : ∃ cmd, m.existsCmd = .ok cmd := by
  unfold existsCmd
  split
  · exact ⟨_, rfl⟩
  · next hfile =>
    obtain ⟨resource, hres⟩ := Option.ne_none_iff_exists'.1 (h.resolve_left hfile)
    rw [hres]
    exact ⟨_, rfl⟩

end KubeManager

section
variable {σ : Type u} {ρ : Type v} {K : Kubectl σ ρ} {tbl : Py.CharTable} {binPath : String}
  {params : KubeParams} {s : σ}

/-- A run succeeds iff `delete` does. -/
theorem kubeAbsent_eq_ok {msg : String} (h : (kubeAbsent K tbl binPath params s).1 = .ok msg) :
    ∃ lines, (KubeManager.init tbl binPath params).delete K s =
      (.ok lines, (kubeAbsent K tbl binPath params s).2) := by
  unfold kubeAbsent at h ⊢
  split at h
  · cases h
  · next lines s' hdel => exact ⟨lines, by rw [hdel]⟩

/-- A run with `state=absent` leaves early with the resources as they are when `exists` is false, and
else has deleted what is selected if it succeeds. -/
theorem kubeAbsent_spec {cmd : List KubectlArg} (hforce : params.force = false)
    (hcmd : (KubeManager.init tbl binPath params).existsCmd = .ok cmd) :
    let m := KubeManager.init tbl binPath params
    ∃ b s', (∀ r, K.Exists s' r ↔ K.Exists s r) ∧
      (b = true ↔
        ¬ m.GetFails K cmd s ∧ ∃ r, K.Selects (m.target m.all) r ∧ K.Exists s r) ∧
      (b = false → kubeAbsent K tbl binPath params s = (.ok "success: ", s')) ∧
      (b = true → ∀ msg, (kubeAbsent K tbl binPath params s).1 = .ok msg →
        ∀ r, K.Selects (m.target false) r →
          ¬ K.Exists (kubeAbsent K tbl binPath params s).2 r) := by
  intro m
  have hbase : ∀ a ∈ m.baseCmd, a.IsBase := KubeManager.isBase_baseCmd tbl binPath params
  obtain ⟨b, s', -, hkeeps, hb, hdelete⟩ :=
    KubeManager.delete_spec (K := K) (s := s) hbase hforce hcmd
  refine ⟨b, s', hkeeps, hb, fun hfalse => ?_, fun htrue msg hmsg => ?_⟩
  · unfold kubeAbsent
    rw [hdelete, hfalse]
    rfl
  · obtain ⟨lines, hlines⟩ := kubeAbsent_eq_ok hmsg
    rw [hdelete, if_pos htrue] at hlines
    exact KubeManager.deleteAll_spec hbase hlines

end

/-- A successful run with `state=absent` has removed all that the options select iff `get` saw it
before: when something selected exists, `get` does not fail and no resource that the options name is
missing. -/
theorem absent_removes_iff {σ : Type u} {ρ : Type v} (K : Kubectl σ ρ) (tbl : Py.CharTable)
    (binPath : String) (params : KubeParams) (s : σ) (hforce : params.force = false)
    (htarget : (KubeManager.init tbl binPath params).HasTarget) :
    let m := KubeManager.init tbl binPath params
    (∀ msg, (kubeAbsent K tbl binPath params s).1 = .ok msg →
      ∀ r, K.Selects (m.target false) r → ¬ K.Exists (kubeAbsent K tbl binPath params s).2 r) ↔
    ((∃ r, K.Selects (m.target false) r ∧ K.Exists s r) → ∀ cmd, m.existsCmd = .ok cmd →
      ¬ K.Fails (m.baseCmd ++ cmd) s ∧
        ((m.target m.all).Named → ∀ r, K.Selects (m.target m.all) r → K.Exists s r)) := by
  intro m
  obtain ⟨cmd, hcmd⟩ := KubeManager.existsCmd_isOk htarget
  obtain ⟨b, s', hkeeps, hb, hearly, hdeletes⟩ := @kubeAbsent_spec σ ρ K tbl binPath params s cmd
    hforce hcmd
  constructor
  · rintro hremoves ⟨r, hsel, hex⟩ cmd' hcmd'
    cases hcmd.symm.trans hcmd'
    -- what exists is still there, so the run was not the early exit
    have hseen : ¬ m.GetFails K cmd s := by
      intro hfails
      have hok := hearly (by simpa [m, hfails] using hb)
      have hgone := hremoves "success: " (by rw [hok]) r hsel
      rw [hok] at hgone
      exact hgone ((hkeeps r).2 hex)
    refine ⟨fun hfails => hseen (.inl hfails), fun hnamed r' hr' => ?_⟩
    by_contra hmissing
    exact hseen (.inr ⟨hnamed, r', hr', hmissing⟩)
  · intro hcond msg hmsg r hsel hex
    cases hseen : b with
    | false =>
      rw [hearly hseen] at hex
      rw [hkeeps] at hex
      obtain ⟨hfails, hnamed⟩ := hcond ⟨r, hsel, hex⟩ cmd hcmd
      have hget : ¬ m.GetFails K cmd s := by
        rintro (h | ⟨h, r', hr', hmissing⟩)
        · exact hfails h
        · exact hmissing (hnamed h r' hr')
      have htrue : b = true := hb.2 ⟨hget, r, KubeManager.selects_target hsel, hex⟩
      rw [hseen] at htrue
      cases htrue
    | true => exact hdeletes hseen msg hmsg r hsel hex

/-- The resources of a target in a cluster where each file defines one resource, with the name of
the file, and a call names its resources last. -/
def exampleSelected : KubeTarget → List String
  | .files _ filenames _ => filenames
  | .resource _ _ words _ => words.getLast?.toList

/-- `kubectl` on that cluster, whose states are the lists of resources. -/
def exampleKubectl : Kubectl (List String) String where
  run args s :=
    let selected := exampleSelected (kubectlTarget args)
    let missing := (kubectlTarget args).Named ∧ ∃ r ∈ selected, r ∉ s
    if (kubectlWords args).head? = some "get" then
      if missing then (⟨1, "", "NotFound"⟩, s)
      else (⟨0, String.join ((selected.filter (· ∈ s)).map (· ++ "\n")), ""⟩, s)
    else if missing ∧ .ignoreNotFound ∉ args then (⟨1, "", "NotFound"⟩, s)
    else (⟨0, "deleted\n", ""⟩, s.filter (· ∉ selected))
  Exists s r := r ∈ s
  Selects target r := r ∈ exampleSelected target
  Fails _ _ := False
  line r := r
  selects_allNamespaces h := h
  get_nonzero hverb hfails := by
    obtain h | h := hfails
    · cases h
    · simp only [if_pos hverb, if_pos h]
      decide
  get_zero hverb hfails := by
    have hmissing := not_or.1 hfails
    simp only [if_pos hverb, if_neg hmissing.2]
    exact ⟨trivial, _, fun r => by simp, rfl⟩
  get_exists hverb := by
    simp only [if_pos hverb]
    split <;> rfl
  delete_zero hverb hrc r hr := by
    simp only [hverb, Option.some.injEq, String.reduceEq, if_false] at hrc ⊢
    split at hrc
    · simp at hrc
    · next h =>
      rw [if_neg h]
      simp [hr]

/-- The resource of the first file exists and that of the second does not: the run succeeds and the
first one stays. -/
theorem absent_removes_fails :
    let params : KubeParams := { filename := some ["a.yml", "b.yml"] }
    exampleKubectl.Selects ((KubeManager.init .ascii "kubectl" params).target false) "a.yml" ∧
      (kubeAbsent exampleKubectl .ascii "kubectl" params ["a.yml"]).1 = .ok "success: " ∧
      exampleKubectl.Exists (kubeAbsent exampleKubectl .ascii "kubectl" params ["a.yml"]).2
        "a.yml" := by
  refine ⟨?_, by decide +kernel, ?_⟩
  · show "a.yml" ∈ exampleSelected _
    decide +kernel
  · show "a.yml" ∈ (kubeAbsent exampleKubectl .ascii "kubectl" _ ["a.yml"]).2
    decide +kernel

/-- With both resources there the run removes them. -/
theorem absent_removes_two_files :
    let params : KubeParams := { filename := some ["a.yml", "b.yml"] }
    (kubeAbsent exampleKubectl .ascii "kubectl" params ["a.yml", "b.yml", "c.yml"]).2 = ["c.yml"] ∧
      ¬ exampleKubectl.Exists
        (kubeAbsent exampleKubectl .ascii "kubectl" params ["a.yml", "b.yml", "c.yml"]).2
          "a.yml" := by
  refine ⟨by decide +kernel, ?_⟩
  refine (absent_removes_iff exampleKubectl .ascii "kubectl" _ _ rfl ?_).2 ?_ "success: deleted" ?_
    "a.yml" ?_
  · exact .inl (by decide +kernel)
  · intro _ cmd _
    refine ⟨id, fun _ r hr => ?_⟩
    revert r
    show ∀ r ∈ exampleSelected _, r ∈ ["a.yml", "b.yml", "c.yml"]
    decide +kernel
  · decide +kernel
  · show "a.yml" ∈ exampleSelected _
    decide +kernel

end Kubespray
