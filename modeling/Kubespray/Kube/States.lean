import Kubespray.Kube.Idempotence
import Kubespray.Lib.Transition

/-!
# The states of the module `kube`

`library/kube.py` with any `state`: `create`, `replace`, `stop` and `main`. Of runs over the same
files, with any states, a successful `absent` run removes everything if all resources of the files
are there or none is. A successful `present`, `latest` or `reloaded` run leaves all of them, an
`absent` run none, and `stopped` and `exists` runs change nothing; so over successful runs the
resources are all there or all gone, as the last run that changes them has asked (`runs_followed`).
-/

universe u v

namespace Kubespray

/-! ## `kubectl apply` and `kubectl stop` -/

/-- An argument of `kubectl apply`. -/
inductive ApplyArg where
  | plain (a : KubectlArg)
  | force
  | wait
  deriving DecidableEq, Repr

/-- The text of an argument. -/
def ApplyArg.text : ApplyArg → String
  | .plain a => a.text
  | .force => "--force"
  | .wait => "--wait"

/-- The argument, if other calls have it too. -/
def ApplyArg.plain? : ApplyArg → Option KubectlArg
  | .plain a => some a
  | _ => none

/-- What is documented of `kubectl apply`, and of a verb that `kubectl` does not have. -/
structure KubectlApply (σ : Type u) (ρ : Type v) extends KubectlDelete σ ρ where
  /-- A call of `apply`: its result and the state it leaves. -/
  apply : List ApplyArg → σ → CommandResult × σ
  /-- `apply` exits zero only if everything that is selected exists. -/
  apply_zero : ∀ {args s}, (kubectlWords (args.filterMap ApplyArg.plain?)).head? = some "apply" →
    (apply args s).1.rc = 0 →
    ∀ r, Selects (kubectlTarget (args.filterMap ApplyArg.plain?)) r → Exists (apply args s).2 r
  /-- `stop` is an unknown command. -/
  stop_nonzero : ∀ {args s}, (kubectlWords args).head? = some "stop" → (run args s).1.rc ≠ 0

/-! ## `KubeManager` and `main` -/

/-- The values of `state`. -/
inductive KubeState where
  | present
  | absent
  | latest
  | reloaded
  | stopped
  /-- `exists`. -/
  | existing
  deriving DecidableEq, Repr

/-- The fields of `module.params`. -/
structure KubeModuleParams extends KubeParams where
  wait : Bool := false
  state : KubeState := .present

namespace KubeManager

/-- The command of `create` and `replace`, which differ in the text of their error. -/
def applyCmd (m : KubeManager) (force wait : Bool) (purpose : String) :
    Except String (List ApplyArg) :=
  if m.filename = [] then .error ("filename required to " ++ purpose)
  else .ok ([.plain (.word "apply")] ++ (if force then [.force] else []) ++
    (if wait then [.wait] else []) ++ (if m.recursive then [.plain .recursive] else []) ++
    [.plain (.filename m.filename)])

/-- The command of `stop`. -/
def stopCmd (m : KubeManager) : Except String (List KubectlArg) :=
  if m.filename ≠ [] then
    .ok ([.word "stop", .filename m.filename] ++ if m.recursive then [.recursive] else [])
  else match given m.resource with
    | none => .error "resource required to stop without filename"
    | some resource =>
      .ok ([.word "stop", .word resource] ++ ((given m.name).map .word).toList ++
        ((given m.label).map .selector).toList ++ (if m.all then [.all] else []) ++
        if m.force then [.ignoreNotFound] else [])

section
variable {σ : Type u} {ρ : Type v} (K : KubectlApply σ ρ) (m : KubeManager)

/-- `_execute` of an `apply` command. -/
def executeApply (cmd : List ApplyArg) (s : σ) : Except String (List String) × σ :=
  let args := m.baseCmd.map .plain ++ cmd
  let (result, s') := K.apply args s
  if result.rc ≠ 0 then
    (.error ("error running kubectl (" ++ " ".intercalate (m.kubectl :: args.map ApplyArg.text) ++
      ") command (rc=" ++ toString result.rc ++ "), out='" ++ result.out ++ "', err='" ++
      result.err ++ "'"), s')
  else (.ok (Py.splitlines result.out), s')

/-- The end of `create` and `replace`. -/
def applyAll (force wait : Bool) (purpose : String) (s : σ) : Except String (List String) × σ :=
  match m.applyCmd force wait purpose with
  | .error msg => (.error msg, s)
  | .ok cmd => m.executeApply K cmd s

/-- `create`. -/
def create (wait check force : Bool) (s : σ) : Except String (List String) × σ :=
  if check then
    match m.existsResult K.toKubectl s with
    | (.error msg, s') => (.error msg, s')
    | (.ok true, s') => (.ok [], s')
    | (.ok false, s') => m.applyAll K force wait "create" s'
  else m.applyAll K force wait "create" s

/-- `replace`. -/
def replace (wait force : Bool) (s : σ) : Except String (List String) × σ :=
  m.applyAll K force wait "reload" s

/-- `stop` after its check. -/
def stopAll (s : σ) : Except String (List String) × σ :=
  match m.stopCmd with
  | .error msg => (.error msg, s)
  | .ok cmd => m.execute K.toKubectl cmd s

/-- `stop`. -/
def stop (s : σ) : Except String (List String) × σ :=
  if m.force then m.stopAll K s
  else match m.existsResult K.toKubectl s with
    | (.error msg, s') => (.error msg, s')
    | (.ok false, s') => (.ok [], s')
    | (.ok true, s') => m.stopAll K s'

end

end KubeManager

/-- The end of `main` for all states but `exists`. -/
def exitSuccess {σ : Type u} : Except String (List String) × σ → Except String String × σ
  | (.error msg, s) => (.error msg, s)
  | (.ok result, s) => (.ok ("success: " ++ " ".intercalate result), s)

/-- The message of `exists`. -/
def existsMessage {σ : Type u} : Except String Bool × σ → Except String String × σ
  | (.error msg, s) => (.error msg, s)
  | (.ok result, s) => (.ok (if result then "True" else "False"), s)

section
variable {σ : Type u} {ρ : Type v} (K : KubectlApply σ ρ) (tbl : Py.CharTable) (binPath : String)

/-- `main`: the message of `exit_json` or of `fail_json`. -/
def kubeMain (params : KubeModuleParams) (s : σ) : Except String String × σ :=
  let m := KubeManager.init tbl binPath params.toKubeParams
  match params.state with
  | .present => exitSuccess (m.create K params.wait false true s)
  | .absent => exitSuccess (m.delete K.toKubectl s)
  | .reloaded => exitSuccess (m.replace K params.wait true s)
  | .stopped => exitSuccess (m.stop K s)
  | .latest => exitSuccess (m.replace K params.wait true s)
  | .existing => existsMessage (m.existsResult K.toKubectl s)

/-! ## Runs over the same files -/

/-- What one run has of its own. -/
structure KubeRun where
  state : KubeState
  force : Bool
  wait : Bool

/-- The parameters of a run. -/
def KubeRun.params (run : KubeRun) (files : KubeParams) : KubeModuleParams where
  toKubeParams := { files with force := run.force }
  wait := run.wait
  state := run.state

/-- Whether the state asks for the resources to be there or to be gone. -/
def KubeState.asks : KubeState → Option Bool
  | .present | .latest | .reloaded => some true
  | .absent => some false
  | .stopped | .existing => none

/-- All resources of the files are there or, if they are not `applied`, all are gone. -/
def AsApplied (files : KubeParams) (applied : Bool) (s : σ) : Prop :=
  ∀ r, K.Selects ((KubeManager.init tbl binPath files).target false) r →
    (K.Exists s r ↔ applied = true)

/-- The API server answers the calls by which a run looks at the resources. -/
def AnswersRun (files : KubeParams) (run : KubeRun) (s : σ) : Prop :=
  run.state.asks ≠ some true →
    AnswersDelete K.toKubectlDelete (KubeManager.init tbl binPath (run.params files).toKubeParams) s

/-- Successful runs over the same files, with what the last of them that changes resources has asked
for. -/
def kubeRuns (files : KubeParams) : TransitionSystem (σ × Bool) KubeRun where
  init p := AsApplied K tbl binPath files p.2 p.1
  step p run p' := AnswersRun K tbl binPath files run p.1 ∧
    (∃ msg, kubeMain K tbl binPath (run.params files) p.1 = (.ok msg, p'.1)) ∧
    p'.2 = run.state.asks.getD p.2

end

section
variable {σ : Type u} {ρ : Type v} {K : KubectlApply σ ρ} {m : KubeManager} {s s' : σ}
  {lines : List String}

namespace KubeManager

/-- The target of options with files. -/
theorem target_of_filename (hfile : m.filename ≠ []) (b : Bool) :
    m.target b = .files (m.baseCmd.findSome? KubectlArg.ns?) m.filename m.recursive := if_pos hfile

/-- An `apply` call has what the options select for its target. -/
theorem applyCmd_call {force wait : Bool} {purpose : String} {cmd : List ApplyArg}
    (hbase : ∀ a ∈ m.baseCmd, a.IsBase) (h : m.applyCmd force wait purpose = .ok cmd) :
    let args := (m.baseCmd.map ApplyArg.plain ++ cmd).filterMap ApplyArg.plain?
    (kubectlWords args).head? = some "apply" ∧ kubectlTarget args = m.target false := by
  have hplain : (m.baseCmd.map ApplyArg.plain).filterMap ApplyArg.plain? = m.baseCmd := by
    rw [List.filterMap_map]
    exact List.filterMap_some
  dsimp only
  rw [List.filterMap_append, hplain, kubectlWords_base hbase]
  unfold applyCmd at h
  split at h
  · cases h
  · next hfile =>
    cases h
    refine ⟨by cases force <;> cases wait <;> rfl, ?_⟩
    rw [target_of_filename hfile, kubectlTarget_base hbase]
    all_goals cases force <;> cases wait <;> cases m.recursive <;> rfl

/-- A successful `apply` leaves everything that the options select. -/
theorem applyAll_spec {force wait : Bool} {purpose : String} (hbase : ∀ a ∈ m.baseCmd, a.IsBase)
    (h : m.applyAll K force wait purpose s = (.ok lines, s')) :
    ∀ r, K.Selects (m.target false) r → K.Exists s' r := by
  unfold applyAll at h
  split at h
  · cases h
  · next cmd hcmd =>
    obtain ⟨hverb, htarget⟩ := applyCmd_call hbase hcmd
    simp only [executeApply] at h
    split at h
    · cases h
    · next hrc =>
      cases h
      exact htarget ▸ K.apply_zero hverb (not_not.1 hrc)

/-- `delete` and `stop` go on if `exists` is true. -/
theorem delete_of_exists {b : Bool} {t : σ} (hforce : m.force = false)
    (hexists : m.existsResult K.toKubectl s = (.ok b, t)) :
    m.delete K.toKubectl s = if b then m.deleteAll K.toKubectl t else (.ok [], t) := by
  rw [delete, hforce, hexists]
  cases b <;> rfl

theorem stop_of_exists {b : Bool} {t : σ} (hforce : m.force = false)
    (hexists : m.existsResult K.toKubectl s = (.ok b, t)) :
    m.stop K s = if b then m.stopAll K t else (.ok [], t) := by
  rw [stop, hforce, hexists]
  cases b <;> rfl

/-- No `stop` call succeeds. -/
theorem stopAll_ne_ok (hbase : ∀ a ∈ m.baseCmd, a.IsBase) : m.stopAll K s ≠ (.ok lines, s') := by
  intro h
  unfold stopAll at h
  split at h
  · cases h
  · next cmd hcmd =>
    have hverb : (kubectlWords (m.baseCmd ++ cmd)).head? = some "stop" := by
      rw [kubectlWords_base hbase]
      unfold stopCmd at hcmd
      split at hcmd
      · cases hcmd
        rfl
      · split at hcmd
        · cases hcmd
        · cases hcmd
          rfl
    have hrc := K.stop_nonzero (s := s) hverb
    simp only [execute, hrc, if_true, ne_eq, not_false_eq_true] at h
    cases h

end KubeManager

/-- A run whose end is `exitSuccess` succeeds only if the method does. -/
theorem exitSuccess_eq_ok {r : Except String (List String) × σ} {msg : String}
    (h : exitSuccess r = (.ok msg, s')) : ∃ lines, r = (.ok lines, s') := by
  obtain ⟨r, t⟩ := r
  cases r with
  | error e => cases h
  | ok lines =>
    cases h
    exact ⟨lines, rfl⟩

end

section
variable {σ : Type u} {ρ : Type v} {K : KubectlApply σ ρ} {tbl : Py.CharTable} {binPath : String}
  {files : KubeParams} {run : KubeRun} {applied : Bool} {s s' : σ} {msg : String}

/-- The options of the runs select the same, whatever is forced. -/
theorem target_run (hfiles : (KubeManager.init tbl binPath files).filename ≠ []) (b c : Bool) :
    (KubeManager.init tbl binPath (run.params files).toKubeParams).target b =
      (KubeManager.init tbl binPath files).target c :=
  (KubeManager.target_of_filename hfiles b).trans (KubeManager.target_of_filename hfiles c).symm

/-- What `exists` sees, when the API server answers. -/
theorem existsResult_applied (run : KubeRun)
    (hfiles : (KubeManager.init tbl binPath files).filename ≠ [])
    (haccepts : ∀ cmd, (KubeManager.init tbl binPath files).existsCmd = .ok cmd →
      K.Accepts ((KubeManager.init tbl binPath files).baseCmd ++ cmd))
    (hs : AsApplied K tbl binPath files applied s) (hans : K.Answers s) :
    ∃ b s', (KubeManager.init tbl binPath (run.params files).toKubeParams).existsResult
        K.toKubectl s = (.ok b, s') ∧
      (∀ r, K.Exists s' r ↔ K.Exists s r) ∧
      (b = true ↔ applied = true ∧
        ∃ r, K.Selects ((KubeManager.init tbl binPath files).target false) r) := by
  let m := KubeManager.init tbl binPath (run.params files).toKubeParams
  obtain ⟨cmd, hcmd⟩ := KubeManager.existsCmd_isOk (m := m) (.inl hfiles)
  have hbase : ∀ a ∈ m.baseCmd, a.IsBase := KubeManager.isBase_baseCmd tbl binPath _
  obtain ⟨b, s', hexists, hkeeps, hb⟩ :=
    KubeManager.existsResult_spec (K := K.toKubectl) (s := s) hbase hcmd
  refine ⟨b, s', hexists, hkeeps, hb.trans ?_⟩
  have hfails : ¬ K.Fails (m.baseCmd ++ cmd) s := by
    rw [K.fails_iff, not_not]
    exact ⟨hans, haccepts cmd hcmd⟩
  have hnamed : (m.target m.all).Named := by
    rw [KubeManager.target_of_filename (m := m) hfiles]
    trivial
  rw [KubeManager.GetFails, or_iff_right hfails, and_iff_right hnamed,
    target_run hfiles m.all false]
  constructor
  · rintro ⟨-, r, hsel, hex⟩
    exact ⟨(hs r hsel).1 hex, r, hsel⟩
  · rintro ⟨happlied, r, hsel⟩
    refine ⟨?_, r, hsel, (hs r hsel).2 happlied⟩
    rintro ⟨r', hsel', hmissing⟩
    exact hmissing ((hs r' hsel').2 happlied)

/-- One successful run leaves the resources as it has asked, or as they were. -/
theorem asApplied_step (hfiles : (KubeManager.init tbl binPath files).filename ≠ [])
    (haccepts : ∀ cmd, (KubeManager.init tbl binPath files).existsCmd = .ok cmd →
      K.Accepts ((KubeManager.init tbl binPath files).baseCmd ++ cmd))
    (hs : AsApplied K tbl binPath files applied s)
    (hans : AnswersRun K tbl binPath files run s)
    (h : kubeMain K tbl binPath (run.params files) s = (.ok msg, s')) :
    AsApplied K tbl binPath files (run.state.asks.getD applied) s' := by
  obtain ⟨state, force, wait⟩ := run
  let run : KubeRun := ⟨state, force, wait⟩
  let m := KubeManager.init tbl binPath (run.params files).toKubeParams
  have hbase : ∀ a ∈ m.baseCmd, a.IsBase := KubeManager.isBase_baseCmd tbl binPath _
  have htarget : m.target false = (KubeManager.init tbl binPath files).target false :=
    target_run hfiles false false
  have happly : ∀ {purpose lines}, m.applyAll K true wait purpose s = (.ok lines, s') →
      AsApplied K tbl binPath files true s' := fun happly r hsel =>
    iff_of_true (KubeManager.applyAll_spec hbase happly r (htarget ▸ hsel)) rfl
  have hlooks := fun hasks => existsResult_applied run hfiles haccepts hs (hans hasks).1
  have hkept : ∀ {t}, (∀ r, K.Exists t r ↔ K.Exists s r) →
      AsApplied K tbl binPath files applied t := fun hkeeps r hsel =>
    (hkeeps r).trans (hs r hsel)
  cases state with
  | present =>
    obtain ⟨lines, happlied⟩ := exitSuccess_eq_ok h
    exact happly happlied
  | latest =>
    obtain ⟨lines, happlied⟩ := exitSuccess_eq_ok h
    exact happly happlied
  | reloaded =>
    obtain ⟨lines, happlied⟩ := exitSuccess_eq_ok h
    exact happly happlied
  | absent =>
    obtain ⟨lines, hdelete⟩ := exitSuccess_eq_ok h
    have hgone : (∀ r, K.Selects (m.target false) r → ¬ K.Exists s' r) →
        AsApplied K tbl binPath files false s' := fun hgone r hsel =>
      iff_of_false (hgone r (htarget ▸ hsel)) Bool.false_ne_true
    refine hgone ?_
    cases force with
    | true => exact KubeManager.deleteAll_spec hbase hdelete
    | false =>
      obtain ⟨b, t, hexists, hkeeps, hb⟩ := hlooks nofun
      rw [KubeManager.delete_of_exists rfl hexists] at hdelete
      cases b with
      | true => exact KubeManager.deleteAll_spec hbase hdelete
      | false =>
        cases hdelete
        intro r hsel hex
        have happlied : applied = true := (hs r (htarget ▸ hsel)).1 ((hkeeps r).1 hex)
        exact Bool.false_ne_true (hb.2 ⟨happlied, r, htarget ▸ hsel⟩)
  | stopped =>
    obtain ⟨lines, hstop⟩ := exitSuccess_eq_ok h
    cases force with
    | true => exact absurd hstop (KubeManager.stopAll_ne_ok hbase)
    | false =>
      obtain ⟨b, t, hexists, hkeeps, -⟩ := hlooks nofun
      rw [KubeManager.stop_of_exists rfl hexists] at hstop
      cases b with
      | true => exact absurd hstop (KubeManager.stopAll_ne_ok hbase)
      | false =>
        cases hstop
        exact hkept hkeeps
  | existing =>
    obtain ⟨b, t, hexists, hkeeps, -⟩ := hlooks nofun
    have hsame : existsMessage (m.existsResult K.toKubectl s) = (.ok msg, s') := h
    rw [hexists] at hsame
    cases hsame
    exact hkept hkeeps

/-- Successful runs over the same files, with any states, while the API server answers: where all
resources of the files are there at first or none is, they are all there or all gone after any
sequence of such runs, as the last of them has asked that asks for either, and `exists` says
which. -/
theorem runs_followed (hfiles : (KubeManager.init tbl binPath files).filename ≠ [])
    (haccepts : ∀ cmd, (KubeManager.init tbl binPath files).existsCmd = .ok cmd →
      K.Accepts ((KubeManager.init tbl binPath files).baseCmd ++ cmd))
    (hr : (kubeRuns K tbl binPath files).Reachable (s, applied)) :
    AsApplied K tbl binPath files applied s ∧
      ∀ run : KubeRun, run.state = .existing → K.Answers s →
        (∃ r, K.Selects ((KubeManager.init tbl binPath files).target false) r) →
        (kubeMain K tbl binPath (run.params files) s).1 =
          .ok (if applied then "True" else "False") := by
  let Inv : σ × Bool → Prop := fun p => AsApplied K tbl binPath files p.2 p.1
  have hinv : Inv (s, applied) := by
    have hinit : ∀ p, (kubeRuns K tbl binPath files).init p → Inv p := fun _ hinit => hinit
    refine hr.invariant hinit fun p run p' _ hs hstep => ?_
    obtain ⟨hans, ⟨msg, hrun⟩, hasks⟩ := hstep
    change AsApplied K tbl binPath files p'.2 p'.1
    rw [hasks]
    exact asApplied_step hfiles haccepts hs hans hrun
  refine ⟨hinv, ?_⟩
  rintro ⟨state, force, wait⟩ rfl hans hsome
  obtain ⟨b, t, hexists, -, hb⟩ :=
    existsResult_applied ⟨.existing, force, wait⟩ hfiles haccepts hinv hans
  rw [and_iff_left hsome, ← Bool.eq_iff_iff] at hb
  have hmain : kubeMain K tbl binPath (KubeRun.params ⟨.existing, force, wait⟩ files) s =
      existsMessage ((KubeManager.init tbl binPath
        (KubeRun.params ⟨.existing, force, wait⟩ files).toKubeParams).existsResult
          K.toKubectl s) := rfl
  rw [hmain, hexists, hb]
  rfl

end

/-- `kubectl` on the cluster of `exampleKubectl`, without a command `stop`. -/
def exampleRun (args : List KubectlArg) (s : List String) : CommandResult × List String :=
  if (kubectlWords args).head? = some "stop" then (⟨1, "", "unknown command"⟩, s)
  else exampleKubectl.run args s

theorem exampleRun_eq {args : List KubectlArg} {s : List String} {verb : String}
    (hverb : (kubectlWords args).head? = some verb) (hne : verb ≠ "stop") :
    exampleRun args s = exampleKubectl.run args s := by
  rw [exampleRun, hverb, if_neg fun h => hne (Option.some.inj h)]

/-- This `kubectl`, whose `apply` creates what is selected. -/
def exampleKubectlApply : KubectlApply (List String) String where
  run := exampleRun
  Exists := exampleKubectl.Exists
  Selects := exampleKubectl.Selects
  Fails := exampleKubectl.Fails
  line := exampleKubectl.line
  selects_allNamespaces := exampleKubectl.selects_allNamespaces
  get_nonzero hverb := by
    rw [exampleRun_eq hverb (by decide)]
    exact exampleKubectl.get_nonzero hverb
  get_zero hverb := by
    rw [exampleRun_eq hverb (by decide)]
    exact exampleKubectl.get_zero hverb
  get_exists hverb := by
    rw [exampleRun_eq hverb (by decide)]
    exact exampleKubectl.get_exists hverb
  delete_zero hverb := by
    rw [exampleRun_eq hverb (by decide)]
    exact exampleKubectl.delete_zero hverb
  Answers := exampleKubectlDelete.Answers
  Accepts := exampleKubectlDelete.Accepts
  fails_iff := exampleKubectlDelete.fails_iff
  delete_nonzero hverb := by
    rw [exampleRun_eq hverb (by decide)]
    exact exampleKubectlDelete.delete_nonzero hverb
  delete_rc hverb := by
    rw [exampleRun_eq hverb (by decide)]
    exact exampleKubectlDelete.delete_rc hverb
  delete_exists hverb := by
    rw [exampleRun_eq hverb (by decide)]
    exact exampleKubectlDelete.delete_exists hverb
  apply args s :=
    (⟨0, "created\n", ""⟩,
      exampleSelected (kubectlTarget (args.filterMap ApplyArg.plain?)) ++ s)
  apply_zero _ _ _ hsel := List.mem_append_left _ hsel
  stop_nonzero hverb := by
    rw [exampleRun, if_pos hverb]
    exact Int.one_ne_zero

/-- Two files are applied, and then deleted. -/
theorem runs_followed_two_files :
    let files : KubeParams := { filename := some ["a.yml", "b.yml"] }
    let s := (kubeMain exampleKubectlApply .ascii "kubectl"
      (KubeRun.params ⟨.absent, false, false⟩ files) ["a.yml", "b.yml", "c.yml"]).2
    AsApplied exampleKubectlApply .ascii "kubectl" files false s ∧
      ∀ run : KubeRun, run.state = .existing → exampleKubectlApply.Answers s →
        (∃ r, exampleKubectlApply.Selects
          ((KubeManager.init .ascii "kubectl" files).target false) r) →
        (kubeMain exampleKubectlApply .ascii "kubectl" (run.params files) s).1 = .ok "False" := by
  intro files s
  have hfiles : (KubeManager.init .ascii "kubectl" files).filename ≠ [] := by decide +kernel
  have hinit : (kubeRuns exampleKubectlApply .ascii "kubectl" files).Reachable
      (["c.yml"], false) := by
    refine .init fun r hsel => ?_
    have hgone : ∀ r ∈ exampleSelected ((KubeManager.init .ascii "kubectl" files).target false),
        r ∉ ["c.yml"] := by decide +kernel
    exact iff_of_false (hgone r hsel) Bool.false_ne_true
  have happlied : (kubeRuns exampleKubectlApply .ascii "kubectl" files).Reachable
      (["a.yml", "b.yml", "c.yml"], true) :=
    .step (a := ⟨.present, false, false⟩) hinit
      ⟨fun h => absurd rfl h, ⟨"success: created", by decide +kernel⟩, rfl⟩
  have hdeleted : (kubeRuns exampleKubectlApply .ascii "kubectl" files).Reachable (s, false) :=
    .step (a := ⟨.absent, false, false⟩) happlied
      ⟨fun _ => ⟨trivial, fun _ _ => trivial⟩, ⟨"success: deleted", by decide +kernel⟩, rfl⟩
  exact runs_followed hfiles (fun _ _ => trivial) hdeleted

end Kubespray
