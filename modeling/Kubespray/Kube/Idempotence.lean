import Kubespray.Kube.Manager

/-!
# A second run of the module `kube`

`library/kube.py` with `state=absent`, run twice. Without `force` the second run asks `exists` again,
and `delete` is called only for resources that are there. With `force` it calls `delete` at once:
for a resource with `--ignore-not-found`, for files without it, so that the second run fails on the
resources that the first one has deleted. `absent_idempotent_iff` says when it does not.
-/

universe u v

namespace Kubespray

/-- What is documented of the exit status of `kubectl delete`. -/
structure KubectlDelete (σ : Type u) (ρ : Type v) extends Kubectl σ ρ where
  /-- The API server answers. -/
  Answers : σ → Prop
  /-- The arguments are accepted. -/
  Accepts : List KubectlArg → Prop
  fails_iff : ∀ {args s}, Fails args s ↔ ¬ (Answers s ∧ Accepts args)
  /-- `delete` exits non-zero if it fails, or if a resource that is named does not exist and this is
  not to be ignored. -/
  delete_nonzero : ∀ {args s}, (kubectlWords args).head? = some "delete" →
    (Fails args s ∨ KubectlArg.ignoreNotFound ∉ args ∧ (kubectlTarget args).Named ∧
      ∃ r, Selects (kubectlTarget args) r ∧ ¬ Exists s r) →
    (run args s).1.rc ≠ 0
  /-- Otherwise it exits zero. -/
  delete_rc : ∀ {args s}, (kubectlWords args).head? = some "delete" →
    ¬ (Fails args s ∨ KubectlArg.ignoreNotFound ∉ args ∧ (kubectlTarget args).Named ∧
      ∃ r, Selects (kubectlTarget args) r ∧ ¬ Exists s r) →
    (run args s).1.rc = 0
  /-- It leaves the resources as they are if none of those selected exists. -/
  delete_exists : ∀ {args s}, (kubectlWords args).head? = some "delete" →
    (∀ r, Selects (kubectlTarget args) r → ¬ Exists s r) →
    ∀ r, Exists (run args s).2 r ↔ Exists s r

/-- Whether the target names its resources does not depend on the namespaces it looks into. -/
theorem KubeManager.named_target {m : KubeManager} {b c : Bool} :
    (m.target b).Named ↔ (m.target c).Named := by
  unfold KubeManager.target
  split <;> rfl

section
variable {σ : Type u} {ρ : Type v} (K : KubectlDelete σ ρ) (m : KubeManager) (s : σ)

/-- The API server answers the calls of `delete`. -/
def AnswersDelete : Prop :=
  K.Answers s ∧ (m.force = false → (m.existsResult K.toKubectl s).1 = .ok true →
    K.Answers (m.existsResult K.toKubectl s).2)

/-- The run succeeds and leaves the resources as they are. -/
def ChangesNothing (result : Except String (List String) × σ) : Prop :=
  (∃ lines, result.1 = .ok lines) ∧ ∀ r, K.Exists result.2 r ↔ K.Exists s r

end

namespace KubeManager

section
variable {σ : Type u} {ρ : Type v} {K : KubectlDelete σ ρ} {m : KubeManager} {s : σ}
  {cmd : List KubectlArg}

/-- The command of `delete` has `--ignore-not-found` for a resource with `force`. -/
theorem ignoreNotFound_mem (h : m.deleteCmd = .ok cmd) :
    KubectlArg.ignoreNotFound ∈ cmd ↔ m.filename = [] ∧ m.force = true := by
  unfold deleteCmd at h
  split at h
  · next hfile =>
    cases h
    cases m.recursive <;> simp [hfile]
  · next hfile =>
    split at h
    · cases h
    · cases h
      rw [not_not] at hfile
      cases m.force <;> cases m.all <;> cases m.recursive <;> simp [hfile]

/-- The exit status of the `delete` command. -/
theorem deleteAll_isOk (hbase : ∀ a ∈ m.baseCmd, a.IsBase) (h : m.deleteCmd = .ok cmd) :
    (∃ lines, (m.deleteAll K.toKubectl s).1 = .ok lines) ↔
      (K.Answers s ∧ K.Accepts (m.baseCmd ++ cmd)) ∧
        (m.filename = [] ∧ m.force = true ∨ ((m.target false).Named →
          ∀ r, K.Selects (m.target false) r → K.Exists s r)) := by
  obtain ⟨hverb, htarget⟩ := deleteCmd_call hbase h
  have hignore : KubectlArg.ignoreNotFound ∈ m.baseCmd ++ cmd ↔
      m.filename = [] ∧ m.force = true := by
    rw [List.mem_append, ignoreNotFound_mem h]
    exact or_iff_right fun hmem => hbase _ hmem
  have hrc : (K.run (m.baseCmd ++ cmd) s).1.rc = 0 ↔
      ¬ (K.Fails (m.baseCmd ++ cmd) s ∨ KubectlArg.ignoreNotFound ∉ m.baseCmd ++ cmd ∧
        (m.target false).Named ∧ ∃ r, K.Selects (m.target false) r ∧ ¬ K.Exists s r) := by
    rw [← htarget]
    exact ⟨fun hzero hfails => K.delete_nonzero hverb hfails hzero, K.delete_rc hverb⟩
  have hok : (∃ lines, (m.deleteAll K.toKubectl s).1 = .ok lines) ↔
      (K.run (m.baseCmd ++ cmd) s).1.rc = 0 := by
    by_cases hzero : (K.run (m.baseCmd ++ cmd) s).1.rc = 0
    · simp [deleteAll, h, execute, hzero]
    · simp [deleteAll, h, execute, hzero]
  rw [hok, hrc, not_or, K.fails_iff, not_not, hignore]
  refine and_congr_right fun _ => ?_
  push Not
  rw [Classical.or_iff_not_imp_left]
  push Not
  rfl

/-- A `delete` command after which nothing selected can be left. -/
theorem deleteAll_exists (hbase : ∀ a ∈ m.baseCmd, a.IsBase)
    (hgone : ∀ r, K.Selects (m.target false) r → ¬ K.Exists s r) (r : ρ) :
    K.Exists (m.deleteAll K.toKubectl s).2 r ↔ K.Exists s r := by
  unfold deleteAll
  split
  · rfl
  · next cmd hcmd =>
    obtain ⟨hverb, htarget⟩ := deleteCmd_call hbase hcmd
    have hstate : (m.execute K.toKubectl cmd s).2 = (K.run (m.baseCmd ++ cmd) s).2 := by
      simp only [execute]
      split <;> rfl
    rw [hstate]
    exact K.delete_exists hverb (htarget ▸ hgone) r

/-- A `delete` that succeeds has a command. -/
theorem exists_deleteCmd {lines : List String} {s' : σ}
    (h : m.deleteAll K.toKubectl s = (.ok lines, s')) : ∃ cmd, m.deleteCmd = .ok cmd := by
  unfold deleteAll at h
  split at h
  · cases h
  · next cmd hcmd => exact ⟨cmd, hcmd⟩

theorem exists_existsCmd {lines : List String} {s' : σ} (hforce : m.force = false)
    (h : m.delete K.toKubectl s = (.ok lines, s')) : ∃ cmd, m.existsCmd = .ok cmd := by
  cases hcmd : m.existsCmd with
  | ok cmd => exact ⟨cmd, rfl⟩
  | error msg =>
    rw [delete, hforce, existsResult, hcmd] at h
    cases h

/-- A second run with `force`. -/
theorem delete_again_forced {lines : List String} {s' : σ} (hbase : ∀ a ∈ m.baseCmd, a.IsBase)
    (hforce : m.force = true) (hfirst : m.delete K.toKubectl s = (.ok lines, s'))
    (hans : AnswersDelete K m s') :
    ChangesNothing K s' (m.delete K.toKubectl s') ↔
      (m.filename ≠ [] → ∀ r, ¬ K.Selects (m.target false) r) := by
  rw [delete, if_pos hforce] at hfirst ⊢
  obtain ⟨cmd, hcmd⟩ := exists_deleteCmd hfirst
  have hgone := deleteAll_spec hbase hfirst
  have hcall := ((deleteAll_isOk hbase hcmd).1 ⟨lines, congrArg Prod.fst hfirst⟩).1
  rw [ChangesNothing, and_iff_left (deleteAll_exists hbase hgone), deleteAll_isOk hbase hcmd,
    and_iff_right ⟨hans.1, hcall.2⟩]
  constructor
  · rintro (hresource | hexist) hfile r hsel
    · exact hfile hresource.1
    · have hnamed : (m.target false).Named := by
        rw [target, if_pos hfile]
        trivial
      exact hgone r hsel (hexist hnamed r hsel)
  · intro hnone
    by_cases hfile : m.filename = []
    · exact .inl ⟨hfile, hforce⟩
    · exact .inr fun _ r hsel => absurd hsel (hnone hfile r)

/-- `get` sees the same in states with the same resources. -/
theorem sees_congr {s' : σ} (hans : K.Answers s) (hans' : K.Answers s')
    (hkeeps : ∀ r, K.Exists s' r ↔ K.Exists s r) :
    (¬ m.GetFails K.toKubectl cmd s' ∧ ∃ r, K.Selects (m.target m.all) r ∧ K.Exists s' r) ↔
      ¬ m.GetFails K.toKubectl cmd s ∧ ∃ r, K.Selects (m.target m.all) r ∧ K.Exists s r := by
  simp only [GetFails, K.fails_iff, hans, hans', true_and, hkeeps]

/-- A second run without `force`. -/
theorem delete_again_unforced {lines : List String} {s' : σ} (hbase : ∀ a ∈ m.baseCmd, a.IsBase)
    (hforce : m.force = false) (hfirst : m.delete K.toKubectl s = (.ok lines, s'))
    (hans : AnswersDelete K m s) (hans' : AnswersDelete K m s') :
    ChangesNothing K s' (m.delete K.toKubectl s') := by
  obtain ⟨cmd, hcmd⟩ := exists_existsCmd hforce hfirst
  obtain ⟨b, t, hexists, hkeeps, hb, hdelete⟩ :=
    delete_spec (K := K.toKubectl) (s := s) hbase hforce hcmd
  obtain ⟨b', t', hexists', hkeeps', hb', hdelete'⟩ :=
    delete_spec (K := K.toKubectl) (s := s') hbase hforce hcmd
  rw [hdelete] at hfirst
  rw [hdelete']
  cases hcase : b' with
  | false => exact ⟨⟨[], rfl⟩, hkeeps'⟩
  | true =>
    cases hseen : b with
    | false =>
      -- the second `get` sees what the first one saw, nothing
      rw [hseen] at hfirst hb
      cases hfirst
      cases hb.2 ((sees_congr hans.1 hans'.1 hkeeps).1 (hb'.1 hcase))
    | true =>
      rw [hseen, if_pos rfl] at hfirst
      obtain ⟨cmd', hcmd'⟩ := exists_deleteCmd hfirst
      have hcall := ((deleteAll_isOk hbase hcmd').1 ⟨lines, congrArg Prod.fst hfirst⟩).1
      have hgone : ∀ r, K.Selects (m.target false) r → ¬ K.Exists t' r := fun r hsel hex =>
        deleteAll_spec hbase hfirst r hsel ((hkeeps' r).1 hex)
      have hanswers : K.Answers t' := by
        have h := hans'.2 hforce
        rw [hexists', hcase] at h
        exact h rfl
      -- `get` succeeds only if all that is named exists
      have hexist : (m.target false).Named → ∀ r, K.Selects (m.target false) r → K.Exists t' r := by
        intro hnamed r hsel
        by_contra hmissing
        exact (hb'.1 hcase).1 (.inr ⟨named_target.1 hnamed, r, selects_target hsel,
          fun hex => hmissing ((hkeeps' r).2 hex)⟩)
      exact ⟨(deleteAll_isOk hbase hcmd').2 ⟨⟨hanswers, hcall.2⟩, .inr hexist⟩,
        fun r => (deleteAll_exists hbase hgone r).trans (hkeeps' r)⟩

end

end KubeManager

section
variable {σ : Type u} {ρ : Type v} {K : Kubectl σ ρ} {tbl : Py.CharTable} {binPath : String}
  {params : KubeParams} {s : σ}

theorem kubeAbsent_fst_isOk : (∃ msg, (kubeAbsent K tbl binPath params s).1 = .ok msg) ↔
    ∃ lines, ((KubeManager.init tbl binPath params).delete K s).1 = .ok lines := by
  unfold kubeAbsent
  split
  · next h => simp [h]
  · next h => simp [h]

theorem kubeAbsent_snd : (kubeAbsent K tbl binPath params s).2 =
    ((KubeManager.init tbl binPath params).delete K s).2 := by
  unfold kubeAbsent
  split
  · next h => rw [h]
  · next h => rw [h]

end

/-- After a successful run with `state=absent`, while the API server answers, a second run with the
same options succeeds and leaves the resources as they are iff not both `force` and files with
resources are given. -/
theorem absent_idempotent_iff {σ : Type u} {ρ : Type v} (K : KubectlDelete σ ρ)
    (tbl : Py.CharTable) (binPath : String) (params : KubeParams) (s : σ)
    (hfirst : ∃ msg, (kubeAbsent K.toKubectl tbl binPath params s).1 = .ok msg)
    (hans : AnswersDelete K (KubeManager.init tbl binPath params) s)
    (hans' : AnswersDelete K (KubeManager.init tbl binPath params)
      (kubeAbsent K.toKubectl tbl binPath params s).2) :
    let m := KubeManager.init tbl binPath params
    let s' := (kubeAbsent K.toKubectl tbl binPath params s).2
    let second := kubeAbsent K.toKubectl tbl binPath params s'
    ((∃ msg, second.1 = .ok msg) ∧ ∀ r, K.Exists second.2 r ↔ K.Exists s' r) ↔
      (params.force = true → m.filename ≠ [] → ∀ r, ¬ K.Selects (m.target false) r) := by
  intro m s' second
  obtain ⟨lines, hlines⟩ := kubeAbsent_fst_isOk.1 hfirst
  have hdelete : m.delete K.toKubectl s = (.ok lines, s') :=
    Prod.ext hlines kubeAbsent_snd.symm
  have hbase : ∀ a ∈ m.baseCmd, a.IsBase := KubeManager.isBase_baseCmd tbl binPath params
  have hsecond : ((∃ msg, second.1 = .ok msg) ∧ ∀ r, K.Exists second.2 r ↔ K.Exists s' r) ↔
      ChangesNothing K s' (m.delete K.toKubectl s') := by
    rw [ChangesNothing, ← kubeAbsent_snd, ← kubeAbsent_fst_isOk]
  rw [hsecond]
  cases hforce : params.force with
  | false =>
    exact iff_of_true (KubeManager.delete_again_unforced hbase hforce hdelete hans hans')
      fun h => by cases h
  | true =>
    rw [KubeManager.delete_again_forced hbase hforce hdelete hans']
    exact ⟨fun h _ => h, fun h => h rfl⟩

theorem exampleKubectl_delete {args : List KubectlArg} {s : List String}
    (hverb : (kubectlWords args).head? = some "delete") :
    exampleKubectl.run args s =
      if ((kubectlTarget args).Named ∧ ∃ r ∈ exampleSelected (kubectlTarget args), r ∉ s) ∧
          .ignoreNotFound ∉ args then (⟨1, "", "NotFound"⟩, s)
      else (⟨0, "deleted\n", ""⟩, s.filter (· ∉ exampleSelected (kubectlTarget args))) := by
  have hget : (kubectlWords args).head? ≠ some "get" := by
    rw [hverb]
    decide
  simp only [exampleKubectl, if_neg hget]

/-- The `kubectl` of `exampleKubectl`, which answers and accepts all calls. -/
def exampleKubectlDelete : KubectlDelete (List String) String where
  toKubectl := exampleKubectl
  Answers _ := True
  Accepts _ := True
  fails_iff := by simp [exampleKubectl]
  delete_nonzero hverb hfails := by
    obtain ⟨hignore, hmissing⟩ := hfails.resolve_left id
    rw [exampleKubectl_delete hverb, if_pos ⟨hmissing, hignore⟩]
    exact Int.one_ne_zero
  delete_rc hverb hfails := by
    rw [exampleKubectl_delete hverb, if_neg fun h => hfails (.inr ⟨h.2, h.1⟩)]
  delete_exists hverb hgone r := by
    show r ∈ (exampleKubectl.run _ _).2 ↔ r ∈ _
    rw [exampleKubectl_delete hverb]
    split
    · rfl
    · rw [List.mem_filter, decide_eq_true_iff]
      exact and_iff_left_of_imp fun hex hsel => hgone r hsel hex

/-- Two runs over a file, of which the first one deletes its resource. -/
theorem absent_idempotent_file :
    let params : KubeParams := { filename := some ["a.yml"] }
    let K := exampleKubectlDelete.toKubectl
    let s' := (kubeAbsent K .ascii "kubectl" params ["a.yml", "c.yml"]).2
    let second := kubeAbsent K .ascii "kubectl" params s'
    s' = ["c.yml"] ∧ (∃ msg, second.1 = .ok msg) ∧ ∀ r, K.Exists second.2 r ↔ K.Exists s' r := by
  refine ⟨by decide +kernel, ?_⟩
  refine (absent_idempotent_iff exampleKubectlDelete .ascii "kubectl" { filename := some ["a.yml"] }
    ["a.yml", "c.yml"] ⟨"success: deleted", by decide +kernel⟩ ?_ ?_).2 (fun h => by cases h)
  · exact ⟨trivial, fun _ _ => trivial⟩
  · exact ⟨trivial, fun _ _ => trivial⟩

/-- With `force` the second run fails on the resource that the first one has deleted. -/
theorem absent_idempotent_fails :
    ¬ ∀ (K : KubectlDelete (List String) String) (params : KubeParams) (s : List String),
      (∃ msg, (kubeAbsent K.toKubectl .ascii "kubectl" params s).1 = .ok msg) →
      AnswersDelete K (KubeManager.init .ascii "kubectl" params) s →
      AnswersDelete K (KubeManager.init .ascii "kubectl" params)
        (kubeAbsent K.toKubectl .ascii "kubectl" params s).2 →
      ∃ msg, (kubeAbsent K.toKubectl .ascii "kubectl" params
        (kubeAbsent K.toKubectl .ascii "kubectl" params s).2).1 = .ok msg := by
  intro h
  let params : KubeParams := { filename := some ["a.yml"], force := true }
  obtain ⟨msg, hmsg⟩ := h exampleKubectlDelete params ["a.yml"]
    ⟨"success: deleted", by decide +kernel⟩ ⟨trivial, fun _ _ => trivial⟩
    ⟨trivial, fun _ _ => trivial⟩
  have hsecond : (kubeAbsent exampleKubectlDelete.toKubectl .ascii "kubectl" params
      (kubeAbsent exampleKubectlDelete.toKubectl .ascii "kubectl" params ["a.yml"]).2).1.isOk =
        false := by
    decide +kernel
  rw [hmsg] at hsecond
  cases hsecond

end Kubespray
