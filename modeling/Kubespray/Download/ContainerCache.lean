import Kubespray.Lib.PyStr
import Mathlib.Logic.Function.Basic

/-!
# The cache of container images

`download_container.yml` and `set_container_facts.yml` of `roles/download` with `download_run_once`,
which sets `download_force_cache` too: the first run that needs an image saves it into an archive on
the Ansible host, and every node that lacks the image gets and loads the archive. An archive stands
for the reference it was saved from. Its file name is the reference with slashes and colons replaced,
so that different references can have one file; `cached_images_iff` says when a sequence of runs
loads only what was asked for.
-/

namespace Kubespray

open Py

/-! ## Names -/

/-- The item `download` of a container image. -/
structure ContainerDownload where
  repo : String
  tag : String
  /-- `sha256`, if it is defined. -/
  sha256 : Option String := none
  deriving DecidableEq, Repr

namespace ContainerDownload

variable (d : ContainerDownload)

/-- `pull_by_digest`. -/
def pullByDigest : Bool := d.sha256.getD "" != ""

/-- `image_reponame`. -/
def imageReponame : String :=
  if d.pullByDigest then d.repo ++ "@sha256:" ++ d.sha256.getD "" else d.repo ++ ":" ++ d.tag

/-- The characters that `image_filename` replaces; the second one is that of code 0. -/
def replaced : List Char := ['/', Char.ofNat 0, ':']

/-- `image_filename`. -/
def imageFilename : String := replaceChars replaced '_' d.imageReponame ++ ".tar"

end ContainerDownload

/-- The references are equal but for slashes, colons and underscores. -/
def LookAlike (d e : ContainerDownload) : Prop :=
  EqualUpTo ('_' :: ContainerDownload.replaced) d.imageReponame e.imageReponame

instance (d e : ContainerDownload) : Decidable (LookAlike d e) :=
  inferInstanceAs (Decidable (EqualUpTo _ _ _))

/-- Two references have one file name iff they look alike. -/
theorem imageFilename_eq_iff {d e : ContainerDownload} :
    d.imageFilename = e.imageFilename ↔ LookAlike d e := by
  rw [ContainerDownload.imageFilename, ContainerDownload.imageFilename, String.append_left_inj,
    replaceChars_eq_iff, LookAlike]

/-! ## One run -/

inductive ContainerManager where
  | docker | containerd | crio
  deriving DecidableEq, Repr

/-- The variables of the role. -/
structure DownloadSettings where
  /-- `any_errors_fatal`. -/
  anyErrorsFatal : Bool := true
  /-- `download_always_pull`. -/
  alwaysPull : Bool := false
  /-- `download_localhost`. -/
  localhost : Bool := false
  /-- `download_keep_remote_cache`. -/
  keepRemoteCache : Bool := false
  /-- `container_manager_on_localhost`. -/
  managerOnLocalhost : ContainerManager := .containerd
  /-- The first host of `kube_control_plane`. -/
  firstControlPlane : String
  deriving Repr

/-- `download_delegate`. -/
def DownloadSettings.delegate (cfg : DownloadSettings) : String :=
  if cfg.localhost then "localhost" else cfg.firstControlPlane

/-- A host of the play. -/
structure DownloadHost where
  name : String
  /-- What `image_info_command` prints. -/
  dockerImages : String
  deriving DecidableEq, Repr

/-- A run of `download_container`. -/
structure ContainerRun where
  image : ContainerDownload
  /-- The hosts for which the file is included. -/
  hosts : List DownloadHost
  /-- One of the tries to pull the image succeeds. -/
  pulls : Bool := true
  deriving Repr

/-- The archives on the Ansible host (`image_path_cached`) and on the other hosts
(`image_path_final`), by file name. An archive is the reference it was saved from. -/
structure Archives where
  cached : String → Option String
  final : String → String → Option String

namespace Archives

/-- No archives. -/
def empty : Archives := ⟨fun _ => none, fun _ _ => none⟩

/-- Write an archive into the cache. -/
def setCached (a : Archives) (file : String) (x : Option String) : Archives :=
  { a with cached := Function.update a.cached file x }

/-- Write or remove an archive on a host. -/
def setFinal (a : Archives) (host file : String) (x : Option String) : Archives :=
  { a with final := Function.update a.final host (Function.update (a.final host) file x) }

/-- Write or remove an archive on several hosts. -/
def setFinals (a : Archives) (hosts : List DownloadHost) (file : String) (x : Option String) :
    Archives :=
  hosts.foldl (fun a h => a.setFinal h.name file x) a

variable (a : Archives) (host file : String) (x : Option String)

@[simp] theorem cached_setFinal : (a.setFinal host file x).cached = a.cached := rfl

@[simp] theorem cached_setFinals (hosts : List DownloadHost) :
    (a.setFinals hosts file x).cached = a.cached := by
  induction hosts generalizing a with
  | nil => rfl
  | cons h hosts ih => exact ih (a.setFinal h.name file x)

theorem final_setFinal_self : (a.setFinal host file x).final host file = x := by
  simp [setFinal]

/-- What is written on several hosts is there on each of them. -/
theorem final_setFinals {hosts : List DownloadHost} {h : DownloadHost} (hh : h ∈ hosts) :
    (a.setFinals hosts file x).final h.name file = x := by
  induction hosts using List.reverseRecOn with
  | nil => cases hh
  | append_singleton hosts k ih =>
    rw [setFinals, List.foldl_append, List.foldl_cons, List.foldl_nil]
    by_cases hk : h.name = k.name
    · rw [hk]
      exact final_setFinal_self _ _ _ _
    · have hmem : h ∈ hosts := by
        rcases List.mem_append.1 hh with hmem | hmem
        · exact hmem
        · exact absurd (by rw [List.mem_singleton.1 hmem]) hk
      simp only [setFinal, Function.update_of_ne hk]
      exact ih hmem

end Archives

/-- An archive is loaded on a host that asked for a reference. -/
structure ImageLoad where
  host : String
  asked : String
  archive : String
  deriving DecidableEq, Repr

section
variable (cfg : DownloadSettings) (run : ContainerRun)

/-- The reference as `image_info_command` prints it: without `^docker\\.io/(library/)?`. -/
def shortName (reponame : String) : String :=
  if startsWith reponame "docker.io/library/" then String.ofList (reponame.toList.drop 18)
  else if startsWith reponame "docker.io/" then String.ofList (reponame.toList.drop 10)
  else reponame

/-- `pull_required`. -/
def pullRequired (d : ContainerDownload) (h : DownloadHost) : Bool :=
  cfg.alwaysPull || decide (shortName d.imageReponame ∉ split ',' h.dockerImages)

/-- `Check that the local digest sha256 corresponds to the given image tag`. The reference is put
into `that` without quotes, and `repo:tag in ...` is not an expression: the task fails on every host
on which it runs. -/
def digestChecked (d : ContainerDownload) (h : DownloadHost) : Bool :=
  cfg.alwaysPull || pullRequired cfg d h || !d.pullByDigest

namespace ContainerRun

/-- The hosts that go on after `check_pull_required.yml`: those that it does not fail, or none if the
first error ends the play. -/
def active : List DownloadHost :=
  if cfg.anyErrorsFatal && !run.hosts.all (digestChecked cfg run.image) then []
  else run.hosts.filter (digestChecked cfg run.image)

/-- The hosts to which the archive is uploaded. -/
def asking : List DownloadHost := (run.active cfg).filter (pullRequired cfg run.image)

/-- What is saved on the delegate gets into the cache: on the Ansible host it is written there, but
not from CRI-O, and from another delegate it is copied if that is one of the hosts. -/
def Reaches : Prop :=
  if cfg.localhost then cfg.managerOnLocalhost ≠ .crio
  else ∃ h ∈ run.active cfg, h.name = cfg.delegate

/-- The run saves the image into the cache if it is not there. -/
def Saves : Prop := run.active cfg ≠ [] ∧ run.pulls = true ∧ run.Reaches cfg

instance : Decidable (run.Reaches cfg) := by
  unfold Reaches
  infer_instance

instance : Decidable (run.Saves cfg) := inferInstanceAs (Decidable (_ ∧ _ ∧ _))

end ContainerRun

/-- `Save and compress image`. -/
def saveImage (d : ContainerDownload) (a : Archives) : Archives :=
  if cfg.localhost then
    match cfg.managerOnLocalhost with
    | .docker | .containerd => a.setCached d.imageFilename (some d.imageReponame)
    | .crio => a.setFinal "localhost" d.imageFilename (some d.imageReponame)
  else a.setFinal cfg.delegate d.imageFilename (some d.imageReponame)

/-- `Copy image to ansible host cache`, which runs on the delegate. -/
def copyToCache (a : Archives) : Archives :=
  let file := run.image.imageFilename
  if cfg.localhost = false ∧ ∃ h ∈ run.active cfg, h.name = cfg.delegate then
    a.setCached file (a.final cfg.delegate file)
  else a

/-- The tasks from `Determine if image is in cache` to `Copy image to ansible host cache`; a failed
pull ends the run. -/
def fillCache (a : Archives) : Option Archives :=
  if (a.cached run.image.imageFilename).isSome then some a
  else if run.pulls then some (copyToCache cfg run (saveImage cfg run.image a))
  else none

/-- The tasks from `Upload image to node if it is cached` on, with what they load. An archive that is
not in the cache fails the hosts to which it is uploaded; the others go on to the last task, unless
the first error ends the play. -/
def loadFromCache (a : Archives) : Archives × List ImageLoad :=
  let file := run.image.imageFilename
  let uploaded := if (a.cached file).isSome then run.asking cfg else []
  let a := a.setFinals uploaded file (a.cached file)
  let loads := uploaded.filterMap fun h =>
    (a.final h.name file).map (ImageLoad.mk h.name run.image.imageReponame)
  let left := if cfg.anyErrorsFatal ∧ uploaded ≠ run.asking cfg then []
    else (run.active cfg).filter fun h => h ∉ run.asking cfg ∨ h ∈ uploaded
  (if cfg.keepRemoteCache then a else a.setFinals left file none, loads)

/-- `download_container`: the archives after it, and what it loads. -/
def downloadContainer (a : Archives) : Archives × List ImageLoad :=
  if run.active cfg = [] then (a, [])
  else match fillCache cfg run a with
    | none => (a, [])
    | some a => loadFromCache cfg run a

/-- What a sequence of runs loads. -/
def imageLoads (cfg : DownloadSettings) : List ContainerRun → Archives → List ImageLoad
  | [], _ => []
  | run :: runs, a =>
    (downloadContainer cfg run a).2 ++ imageLoads cfg runs (downloadContainer cfg run a).1

end

/-! ## What a run saves and loads -/

section
variable {cfg : DownloadSettings} {run : ContainerRun} {runs : List ContainerRun} {a b : Archives}
  {file : String}

/-- Saving and copying write the archive of the image into the cache if it reaches it. -/
theorem cached_copyToCache_saveImage :
    (copyToCache cfg run (saveImage cfg run.image a)).cached =
      if run.Reaches cfg then
        Function.update a.cached run.image.imageFilename (some run.image.imageReponame)
      else a.cached := by
  unfold copyToCache saveImage ContainerRun.Reaches
  by_cases hlocal : cfg.localhost = true
  · simp only [hlocal, Bool.true_eq_false, false_and, if_false, if_true]
    cases cfg.managerOnLocalhost <;> simp [Archives.setCached]
  · rw [Bool.not_eq_true] at hlocal
    simp only [hlocal, true_and, Bool.false_eq_true, if_false]
    by_cases hreach : ∃ h ∈ run.active cfg, h.name = cfg.delegate
    · simp [hreach, Archives.setCached, Archives.setFinal]
    · simp [hreach]

/-- An image that is not cached is saved into the cache if it reaches it. -/
theorem fillCache_cached (h : fillCache cfg run a = some b) :
    b.cached file =
      if file = run.image.imageFilename ∧ a.cached file = none ∧ run.Reaches cfg then
        some run.image.imageReponame
      else a.cached file := by
  unfold fillCache at h
  split at h
  · next hcached =>
    cases h
    rw [if_neg]
    rintro ⟨rfl, hnone, -⟩
    rw [hnone] at hcached
    cases hcached
  · next hcached =>
    rw [Option.not_isSome_iff_eq_none] at hcached
    split at h
    · cases h
      rw [cached_copyToCache_saveImage]
      by_cases hreach : run.Reaches cfg
      · rw [if_pos hreach, Function.update_apply]
        by_cases hfile : file = run.image.imageFilename
        · simp [hfile, hcached, hreach]
        · simp [hfile]
      · simp [hreach]
    · cases h

/-- A run ends early only with an image that is not in the cache. -/
theorem fillCache_eq_none (h : fillCache cfg run a = none) :
    a.cached run.image.imageFilename = none ∧ run.pulls = false := by
  unfold fillCache at h
  split at h
  · cases h
  · next hcached =>
    split at h
    · cases h
    · next hpulls => exact ⟨Option.not_isSome_iff_eq_none.1 hcached, Bool.not_eq_true _ ▸ hpulls⟩

/-- Uploading and loading leave the cache as it is. -/
theorem cached_loadFromCache : (loadFromCache cfg run a).1.cached = a.cached := by
  simp only [loadFromCache]
  split <;> simp only [Archives.cached_setFinals]

/-- What is loaded is what is in the cache. -/
theorem mem_loadFromCache {l : ImageLoad} :
    l ∈ (loadFromCache cfg run a).2 ↔ ∃ h ∈ run.asking cfg, l.host = h.name ∧
      l.asked = run.image.imageReponame ∧ a.cached run.image.imageFilename = some l.archive := by
  simp only [loadFromCache, List.mem_filterMap]
  cases hcached : a.cached run.image.imageFilename with
  | none => simp
  | some archive =>
    rw [Option.isSome_some, if_pos rfl]
    refine exists_congr fun h => and_congr_right fun hh => ?_
    rw [Archives.final_setFinals _ _ _ hh, Option.map_some, Option.some.injEq]
    obtain ⟨host, asked, loaded⟩ := l
    simp [eq_comm]

/-- The cache after a run: one entry is added if the run saves its image and had none. -/
theorem cached_downloadContainer :
    (downloadContainer cfg run a).1.cached file =
      if file = run.image.imageFilename ∧ a.cached file = none ∧ run.Saves cfg then
        some run.image.imageReponame
      else a.cached file := by
  unfold downloadContainer
  by_cases hactive : run.active cfg = []
  · rw [if_pos hactive, if_neg]
    exact fun h => h.2.2.1 hactive
  rw [if_neg hactive]
  cases hfill : fillCache cfg run a with
  | none =>
    rw [if_neg]
    rintro ⟨-, -, -, hpulls, -⟩
    rw [(fillCache_eq_none hfill).2] at hpulls
    cases hpulls
  | some b =>
    show (loadFromCache cfg run b).1.cached file = _
    rw [cached_loadFromCache, fillCache_cached hfill]
    refine if_congr (and_congr_right fun hfile => and_congr_right fun hnone => ?_) rfl rfl
    have hpulls : run.pulls = true := by
      by_contra hpulls
      rw [hfile] at hnone
      rw [fillCache, hnone, Option.isSome_none, if_neg Bool.false_ne_true, if_neg hpulls] at hfill
      cases hfill
    exact ⟨fun h => ⟨hactive, hpulls, h⟩, fun h => h.2.2⟩

/-- A run loads what the cache has after it, on each host that asks. -/
theorem mem_downloadContainer {l : ImageLoad} :
    l ∈ (downloadContainer cfg run a).2 ↔ ∃ h ∈ run.asking cfg, l.host = h.name ∧
      l.asked = run.image.imageReponame ∧
      (downloadContainer cfg run a).1.cached run.image.imageFilename = some l.archive := by
  unfold downloadContainer
  by_cases hactive : run.active cfg = []
  · rw [if_pos hactive]
    simp [ContainerRun.asking, hactive]
  rw [if_neg hactive]
  cases hfill : fillCache cfg run a with
  | none => simp [(fillCache_eq_none hfill).1]
  | some b =>
    show l ∈ (loadFromCache cfg run b).2 ↔ ∃ h ∈ run.asking cfg, _ ∧ _ ∧
      (loadFromCache cfg run b).1.cached _ = _
    rw [mem_loadFromCache, cached_loadFromCache]

/-- From a cache without archives of the image, every load of a run is of the image asked for iff no
host asks or the cache has no file of this name. -/
theorem loads_faithful_iff (hother : a.cached run.image.imageFilename ≠
    some run.image.imageReponame) :
    (∀ l ∈ (downloadContainer cfg run a).2, l.archive = l.asked) ↔
      (run.asking cfg ≠ [] → a.cached run.image.imageFilename = none) := by
  simp only [mem_downloadContainer, cached_downloadContainer, true_and]
  constructor
  · intro h hasks
    by_contra hcached
    obtain ⟨archive, harchive⟩ := Option.ne_none_iff_exists'.1 hcached
    obtain ⟨host, hosts, hlist⟩ := List.exists_cons_of_ne_nil hasks
    refine hother ?_
    rw [harchive]
    exact congrArg some (h ⟨host.name, run.image.imageReponame, archive⟩
      ⟨host, by rw [hlist]; exact .head _, rfl, rfl, by simp [harchive]⟩)
  · rintro h ⟨host, asked, archive⟩ ⟨node, hnode, -, rfl, harchive⟩
    rw [h (List.ne_nil_of_mem hnode)] at harchive
    split at harchive
    · exact (Option.some.inj harchive).symm
    · cases harchive

end

/-! ## Sequences of runs -/

/-- The runs are over different references. -/
def DifferentImages (runs : List ContainerRun) : Prop :=
  runs.Pairwise fun e r => e.image.imageReponame ≠ r.image.imageReponame

/-- No host asks for an image after one that looks alike was saved. -/
def NoneLooksAlike (cfg : DownloadSettings) (runs : List ContainerRun) : Prop :=
  runs.Pairwise fun e r => e.Saves cfg → r.asking cfg ≠ [] → ¬ LookAlike e.image r.image

section
variable {cfg : DownloadSettings} {runs : List ContainerRun} {a : Archives}

/-- The loads of a sequence of runs, from a cache without archives of these images. -/
theorem imageLoads_faithful_iff (hdiff : DifferentImages runs)
    (hother : ∀ r ∈ runs, ∀ file, a.cached file ≠ some r.image.imageReponame) :
    (∀ l ∈ imageLoads cfg runs a, l.archive = l.asked) ↔
      (∀ r ∈ runs, r.asking cfg ≠ [] → a.cached r.image.imageFilename = none) ∧
        NoneLooksAlike cfg runs := by
  induction runs generalizing a with
  | nil => simp [imageLoads, NoneLooksAlike]
  | cons e runs ih =>
    rw [DifferentImages, List.pairwise_cons] at hdiff
    have hother' : ∀ r ∈ runs, ∀ file,
        (downloadContainer cfg e a).1.cached file ≠ some r.image.imageReponame := by
      intro r hr file
      rw [cached_downloadContainer]
      split
      · exact fun h => hdiff.1 r hr (Option.some.inj h)
      · exact hother r (.tail _ hr) file
    -- what the rest of the runs finds in the cache
    have hcache : ∀ r ∈ runs,
        ((downloadContainer cfg e a).1.cached r.image.imageFilename = none ↔
          a.cached r.image.imageFilename = none ∧ (e.Saves cfg → ¬ LookAlike e.image r.image)) := by
      intro r hr
      rw [cached_downloadContainer, ← imageFilename_eq_iff]
      split
      · next h =>
        simp only [reduceCtorEq, false_iff]
        exact fun hc => hc.2 h.2.2 h.1.symm
      · next h =>
        refine ⟨fun hnone => ⟨hnone, fun hsaves hfile => h ⟨hfile.symm, hnone, hsaves⟩⟩, And.left⟩
    rw [imageLoads, List.forall_mem_append, loads_faithful_iff (hother e (.head _) _),
      ih hdiff.2 hother', List.forall_mem_cons, NoneLooksAlike, NoneLooksAlike, List.pairwise_cons,
      and_assoc]
    refine and_congr_right fun _ => ?_
    rw [← and_assoc]
    refine and_congr_left fun _ => ?_
    rw [← forall₂_and]
    refine forall₂_congr fun r hr => ?_
    rw [hcache r hr]
    exact ⟨fun h => ⟨fun hasks => (h hasks).1, fun hsaves hasks => (h hasks).2 hsaves⟩,
      fun h hasks => ⟨h.1 hasks, fun hsaves => h.2 hsaves hasks⟩⟩

end

/-- For runs over different images from an empty cache: two references have one file name iff they
are equal but for slashes, colons and underscores; and every archive that is loaded was saved from the
image asked for iff no host asks for an image after one that looks alike was saved. -/
theorem cached_images_iff (cfg : DownloadSettings) (runs : List ContainerRun)
    (hdiff : DifferentImages runs) :
    (∀ d e : ContainerDownload, d.imageFilename = e.imageFilename ↔ LookAlike d e) ∧
    ((∀ l ∈ imageLoads cfg runs .empty, l.archive = l.asked) ↔ NoneLooksAlike cfg runs) := by
  refine ⟨fun d e => imageFilename_eq_iff, ?_⟩
  rw [imageLoads_faithful_iff hdiff fun _ _ _ h => by cases h]
  exact and_iff_right fun _ _ _ => rfl

/-- A node without images. -/
def bareNode (name : String) : DownloadHost := ⟨name, ""⟩

/-- A run in which two nodes need the image. -/
def runOnTwo (image : ContainerDownload) : ContainerRun where
  image := image
  hosts := [bareNode "node1", bareNode "node2"]

/-- Two images that do not look alike are loaded as they were saved. -/
theorem cached_images_two :
    let loads := imageLoads { firstControlPlane := "node1" }
      [runOnTwo ⟨"quay.io/coreos/etcd", "v3.5.4", none⟩,
        runOnTwo ⟨"quay.io/coreos/flannel", "v0.18.1", none⟩] .empty
    loads.length = 4 ∧ ∀ l ∈ loads, l.archive = l.asked := by
  refine ⟨by decide +kernel, (cached_images_iff _ _ ?_).2.2 ?_⟩
  · simp [DifferentImages, runOnTwo, ContainerDownload.imageReponame,
      ContainerDownload.pullByDigest]
  · refine List.pairwise_pair.2 fun _ _ => ?_
    decide

/-- The reference `quay.io/library/a_b:1` has the file name of `quay.io/library/a/b:1`: the nodes
load the archive of the other image. -/
theorem cached_images_fail : ¬ ∀ (cfg : DownloadSettings) (runs : List ContainerRun),
    DifferentImages runs →
      (∀ l ∈ imageLoads cfg runs .empty, l.archive = l.asked) ∧
      ∀ d e : ContainerDownload, d.imageReponame ≠ e.imageReponame →
        d.imageFilename ≠ e.imageFilename := by
  intro h
  let slash : ContainerDownload := ⟨"quay.io/library/a/b", "1", none⟩
  let underscore : ContainerDownload := ⟨"quay.io/library/a_b", "1", none⟩
  obtain ⟨hloads, -⟩ := h { firstControlPlane := "node1" } [runOnTwo slash, runOnTwo underscore]
    (by simp [DifferentImages, runOnTwo, slash, underscore, ContainerDownload.imageReponame,
      ContainerDownload.pullByDigest])
  have hload : (⟨"node1", "quay.io/library/a_b:1", "quay.io/library/a/b:1"⟩ : ImageLoad) ∈
      imageLoads { firstControlPlane := "node1" } [runOnTwo slash, runOnTwo underscore] .empty := by
    decide +kernel
  exact absurd (hloads _ hload) (by decide)

end Kubespray
