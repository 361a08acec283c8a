import Kubespray.Lib.LastField
import Mathlib.Data.List.Induction
import Mathlib.Logic.Function.Basic

/-!
# The cache of files

`download_file.yml` of `roles/download`. With `download_force_cache` one host, the delegate, gets the
file into the cache directory; the file is copied to the Ansible host if the delegate is one of the
hosts, and from the Ansible host to all of them. Only the download compares a checksum, and the cache
is not emptied: a file of another version has the same name there if it has the same base name.

`downloads_checked_iff` says when every host gets a file of the right checksum, whatever the caches
had before: no cache is forced, or the download gets to the Ansible host. Otherwise a host gets what
the Ansible host happens to have under the name of the file.
-/

universe u

namespace Kubespray

/-- The item `download` of a file. -/
structure FileDownload where
  dest : String
  /-- `sha256`; it is empty if no checksum is compared. -/
  sha256 : String
  /-- `groups`. -/
  groups : List String

/-- A host of the play with its groups. -/
structure PlayHost where
  name : String
  groups : List String
  deriving DecidableEq

/-- The variables of the role for files. -/
structure FileCacheSettings where
  runOnce : Bool
  /-- `download_force_cache`, as the inventory sets it. -/
  setForceCache : Bool
  localhost : Bool
  cacheDir : String
  /-- The first host of `kube_control_plane`. -/
  firstControlPlane : String

/-- `download_force_cache`, as `prep_download.yml` sets it. -/
def FileCacheSettings.forceCache (cfg : FileCacheSettings) : Bool :=
  if cfg.runOnce then true else cfg.setForceCache

/-- `download_delegate`. -/
def FileCacheSettings.delegate (cfg : FileCacheSettings) : String :=
  if cfg.localhost then "localhost" else cfg.firstControlPlane

/-- `file_path_cached`: the base name of `dest` in the cache directory. -/
def FileDownload.pathCached (d : FileDownload) (cfg : FileCacheSettings) : String :=
  cfg.cacheDir ++ "/" ++ Py.afterLast '/' d.dest

section
variable {C : Type u} (sum : C → String)

/-- The files of the hosts, by their paths. -/
abbrev HostFiles (C : Type u) : Type u := String → String → Option C

def HostFiles.set (files : HostFiles C) (host path : String) (c : Option C) : HostFiles C :=
  Function.update files host (Function.update (files host) path c)

/-- `get_url`: the file it leaves, and whether it succeeds. Without a checksum a file that is there
is kept; with one it is downloaded again unless it has the checksum, and what was downloaded is
removed if it has another one. `served` is what the mirrors answer. -/
def getUrl (sha256 : String) (served existing : Option C) : Option C × Bool :=
  match existing with
  | some c => if sha256 = "" ∨ sum c = sha256 then (some c, true) else fresh (some c)
  | none => fresh none
where
  fresh (old : Option C) : Option C × Bool :=
    match served with
    | none => (old, false)
    | some c => if sha256 = "" ∨ sum c = sha256 then (some c, true) else (none, false)

/-- The hosts for which `download_file.yml` is included. -/
def includedHosts (cfg : FileCacheSettings) (d : FileDownload) (play : List PlayHost) :
    List String :=
  (play.filter fun h => (cfg.runOnce && h.name == cfg.delegate) || h.groups.any (· ∈ d.groups)).map
    PlayHost.name

variable (cfg : FileCacheSettings) (d : FileDownload) (served : String → Option C)

/-- `Download item` into the cache of the delegate; a failure ends the run for all hosts. -/
def downloadCached (hosts : List String) (files : HostFiles C) : HostFiles C × List String :=
  let path := d.pathCached cfg
  let (c, ok) := getUrl sum d.sha256 (served cfg.delegate) (files cfg.delegate path)
  (files.set cfg.delegate path c, if ok then hosts else [])

/-- `Copy file back to ansible host file cache`, a task of the delegate. -/
def copyBack (hosts : List String) (files : HostFiles C) : HostFiles C :=
  let path := d.pathCached cfg
  if cfg.localhost = false ∧ cfg.delegate ∈ hosts then
    files.set "localhost" path (files cfg.delegate path)
  else files

/-- `Copy file from cache to nodes, if it is available`. -/
def pushFromCache (hosts : List String) (files : HostFiles C) : HostFiles C × List String :=
  match files "localhost" (d.pathCached cfg) with
  | none => (files, [])
  | some c => (hosts.foldl (fun files h => files.set h d.dest (some c)) files, hosts)

/-- `Download item` on every host. -/
def downloadEach (hosts : List String) (files : HostFiles C) : HostFiles C × List String :=
  hosts.foldl (fun (files, done) h =>
    let (c, ok) := getUrl sum d.sha256 (served h) (files h d.dest)
    (files.set h d.dest c, if ok then done ++ [h] else done)) (files, [])

/-- `download_file.yml`: the files after it, and the hosts that do not fail. -/
def downloadFile (hosts : List String) (files : HostFiles C) : HostFiles C × List String :=
  if cfg.forceCache then
    let (files, hosts) := downloadCached sum cfg d served hosts files
    if hosts = [] then (files, []) else pushFromCache cfg d hosts (copyBack cfg d hosts files)
  else downloadEach sum d served hosts files

/-- The host has a file with the checksum of the item. -/
def Checked (files : HostFiles C) (host : String) : Prop :=
  ∃ c, files host d.dest = some c ∧ sum c = d.sha256

/-- What the hosts get is what was downloaded for them: no cache is forced, or the download gets into
the cache of the Ansible host. -/
def GetsDownload (hosts : List String) : Prop :=
  cfg.forceCache = true → cfg.delegate = "localhost" ∨ cfg.delegate ∈ hosts

end

section
variable {C : Type u} {sum : C → String} {cfg : FileCacheSettings} {d : FileDownload}
  {served : String → Option C} {hosts : List String} {files : HostFiles C} {h : String}

/-! ## Writing files -/

theorem HostFiles.set_self (files : HostFiles C) (host path : String) (c : Option C) :
    files.set host path c host path = c := by
  rw [HostFiles.set, Function.update_self, Function.update_self]

theorem HostFiles.set_of_ne {host host' : String} (hne : host' ≠ host) (files : HostFiles C)
    (path path' : String) (c : Option C) :
    files.set host path c host' path' = files host' path' := by
  rw [HostFiles.set, Function.update_of_ne hne]

/-- What is pushed to some hosts is on each of them. -/
theorem foldl_set_of_mem {path : String} {c : Option C} (hh : h ∈ hosts) :
    hosts.foldl (fun files h => files.set h path c) files h path = c := by
  induction hosts using List.reverseRecOn with
  | nil => cases hh
  | append_singleton hosts k ih =>
    rw [List.foldl_append, List.foldl_cons, List.foldl_nil]
    by_cases hk : h = k
    · rw [hk, HostFiles.set_self]
    · rw [HostFiles.set_of_ne hk]
      exact ih ((List.mem_append.1 hh).resolve_right fun hlast => hk (List.mem_singleton.1 hlast))

/-! ## Downloads -/

/-- A download that succeeds leaves a file of the checksum. -/
theorem getUrl_checked {sha256 : String} {new old c : Option C} (hsha : sha256 ≠ "")
    (hget : getUrl sum sha256 new old = (c, true)) : ∃ f, c = some f ∧ sum f = sha256 := by
  have hfresh : ∀ old : Option C, getUrl.fresh sum sha256 new old = (c, true) →
      ∃ f, c = some f ∧ sum f = sha256 := by
    intro old hget
    unfold getUrl.fresh at hget
    split at hget
    · cases hget
    · split at hget
      · next hsum =>
        cases hget
        exact ⟨_, rfl, hsum.resolve_left hsha⟩
      · cases hget
  unfold getUrl at hget
  split at hget
  · split at hget
    · next hsum =>
      cases hget
      exact ⟨_, rfl, hsum.resolve_left hsha⟩
    · exact hfresh _ hget
  · exact hfresh _ hget

/-- A file of the checksum is not downloaded again. -/
theorem getUrl_of_checked {sha256 : String} {f : C} (hsum : sum f = sha256) (new : Option C) :
    getUrl sum sha256 new (some f) = (some f, true) :=
  if_pos (.inr hsum)

/-- Without the cache every host that does not fail has a file of the checksum. -/
theorem downloadEach_checked (hsha : d.sha256 ≠ "")
    (hh : h ∈ (downloadEach sum d served hosts files).2) :
    Checked sum d (downloadEach sum d served hosts files).1 h := by
  induction hosts using List.reverseRecOn with
  | nil => cases hh
  | append_singleton hosts k ih =>
    rw [downloadEach, List.foldl_append, ← downloadEach, List.foldl_cons, List.foldl_nil] at hh ⊢
    generalize downloadEach sum d served hosts files = run at hh ih ⊢
    obtain ⟨files', done⟩ := run
    dsimp only at hh ih ⊢
    cases hget : getUrl sum d.sha256 (served k) (files' k d.dest) with
    | mk c ok =>
      rw [hget] at hh
      dsimp only at hh ⊢
      by_cases hk : h = k
      · subst hk
        cases ok with
        | true =>
          obtain ⟨f, rfl, hf⟩ := getUrl_checked hsha hget
          exact ⟨f, HostFiles.set_self .., hf⟩
        | false =>
          obtain ⟨f, hf, hsum⟩ := ih hh
          rw [hf, getUrl_of_checked hsum] at hget
          cases hget
      · have hdone : h ∈ done := by
          cases ok with
          | true =>
            exact (List.mem_append.1 hh).resolve_right fun hlast => hk (List.mem_singleton.1 hlast)
          | false => exact hh
        obtain ⟨f, hf, hsum⟩ := ih hdone
        exact ⟨f, by rw [HostFiles.set_of_ne hk, hf], hsum⟩

/-- With the cache a host that does not fail gets what the Ansible host has before the push. -/
theorem downloadFile_forced (hforce : cfg.forceCache = true)
    (hh : h ∈ (downloadFile sum cfg d served hosts files).2) :
    ∃ c, getUrl sum d.sha256 (served cfg.delegate) (files cfg.delegate (d.pathCached cfg)) =
        (c, true) ∧
      (downloadFile sum cfg d served hosts files).1 h d.dest =
        copyBack cfg d hosts (files.set cfg.delegate (d.pathCached cfg) c) "localhost"
          (d.pathCached cfg) ∧
      ∃ f, copyBack cfg d hosts (files.set cfg.delegate (d.pathCached cfg) c) "localhost"
        (d.pathCached cfg) = some f := by
  rw [downloadFile, if_pos hforce, downloadCached] at hh ⊢
  cases hget : getUrl sum d.sha256 (served cfg.delegate)
      (files cfg.delegate (d.pathCached cfg)) with
  | mk c ok =>
    rw [hget] at hh
    dsimp only at hh ⊢
    cases ok with
    | false => cases hh
    | true =>
      refine ⟨c, rfl, ?_⟩
      rw [if_pos rfl] at hh ⊢
      by_cases hnil : hosts = []
      · rw [if_pos hnil] at hh
        cases hh
      · rw [if_neg hnil] at hh ⊢
        unfold pushFromCache at hh ⊢
        split at hh
        · cases hh
        · next f hf =>
          simp only [hf]
          exact ⟨foldl_set_of_mem hh, f, rfl⟩

theorem copyBack_of_reaches (hreach : cfg.delegate = "localhost" ∨ cfg.delegate ∈ hosts)
    (c : Option C) :
    copyBack cfg d hosts (files.set cfg.delegate (d.pathCached cfg) c) "localhost"
      (d.pathCached cfg) = c := by
  unfold copyBack
  split
  · rw [HostFiles.set_self, HostFiles.set_self]
  · next hcopy =>
    have hlocal : cfg.delegate = "localhost" := by
      refine hreach.elim id fun hmem => ?_
      have hlocalhost : cfg.localhost = true := by
        by_contra hnot
        exact hcopy ⟨Bool.not_eq_true _ ▸ hnot, hmem⟩
      rw [FileCacheSettings.delegate, hlocalhost]
      rfl
    rw [hlocal, HostFiles.set_self]

theorem copyBack_of_not_reaches (hlocal : cfg.delegate ≠ "localhost") (hnot : cfg.delegate ∉ hosts)
    (c : Option C) :
    copyBack cfg d hosts (files.set cfg.delegate (d.pathCached cfg) c) "localhost"
      (d.pathCached cfg) = files "localhost" (d.pathCached cfg) := by
  rw [copyBack, if_neg fun h => hnot h.2, HostFiles.set_of_ne (Ne.symm hlocal)]

/-- Where no cache is forced or the download gets to the Ansible host, every host that does not fail
has a file of the checksum, whatever the caches had before. -/
theorem downloadFile_checked (hsha : d.sha256 ≠ "") (hgets : GetsDownload cfg hosts)
    (hh : h ∈ (downloadFile sum cfg d served hosts files).2) :
    Checked sum d (downloadFile sum cfg d served hosts files).1 h := by
  by_cases hforce : cfg.forceCache = true
  · obtain ⟨c, hget, hpushed, -⟩ := downloadFile_forced hforce hh
    obtain ⟨f, rfl, hsum⟩ := getUrl_checked hsha hget
    rw [copyBack_of_reaches (hgets hforce)] at hpushed
    exact ⟨f, hpushed, hsum⟩
  · rw [downloadFile, if_neg hforce] at hh ⊢
    exact downloadEach_checked hsha hh

/-- Elsewhere they have what the Ansible host had in its cache. -/
theorem downloadFile_unchecked (hgets : ¬ GetsDownload cfg hosts)
    (hh : h ∈ (downloadFile sum cfg d served hosts files).2) :
    (downloadFile sum cfg d served hosts files).1 h d.dest =
      files "localhost" (d.pathCached cfg) := by
  obtain ⟨hforce, hnot⟩ := Classical.not_imp.1 hgets
  obtain ⟨hlocal, hmem⟩ := not_or.1 hnot
  obtain ⟨c, -, hpushed, -⟩ := downloadFile_forced hforce hh
  rw [hpushed, copyBack_of_not_reaches hlocal hmem]

/-- A cache directory on the Ansible host with another file than that of the delegate. -/
theorem exists_unchecked (hgets : ¬ GetsDownload cfg hosts) (hhosts : hosts ≠ []) {good : C}
    (hgood : sum good = d.sha256) (bad : C) (served : String → Option C) :
    ∃ files : HostFiles C, files "localhost" (d.pathCached cfg) = some bad ∧
      (downloadFile sum cfg d served hosts files).2 = hosts := by
  obtain ⟨hforce, hnot⟩ := Classical.not_imp.1 hgets
  obtain ⟨hlocal, hmem⟩ := not_or.1 hnot
  refine ⟨fun host _ => if host = "localhost" then some bad else some good, if_pos rfl, ?_⟩
  rw [downloadFile, if_pos hforce, downloadCached, if_neg hlocal, getUrl_of_checked hgood]
  dsimp only
  rw [if_pos rfl, if_neg hhosts, pushFromCache, copyBack_of_not_reaches hlocal hmem, if_pos rfl]

/-- Whatever the mirrors serve and the caches have, every host that does not fail ends with a file of
the checksum, iff no cache is forced or the download gets to the Ansible host; otherwise each has what
was in the cache of the Ansible host before. -/
theorem downloads_checked_iff {play : List PlayHost} (hsha : d.sha256 ≠ "")
    (hgood : ∃ c, sum c = d.sha256) (hbad : ∃ c, sum c ≠ d.sha256)
    (hhosts : includedHosts cfg d play ≠ []) :
    ((∀ (served : String → Option C) (files : HostFiles C),
        ∀ h ∈ (downloadFile sum cfg d served (includedHosts cfg d play) files).2,
          Checked sum d (downloadFile sum cfg d served (includedHosts cfg d play) files).1 h) ↔
      GetsDownload cfg (includedHosts cfg d play)) ∧
    (¬ GetsDownload cfg (includedHosts cfg d play) →
      ∀ (served : String → Option C) (files : HostFiles C),
        ∀ h ∈ (downloadFile sum cfg d served (includedHosts cfg d play) files).2,
          (downloadFile sum cfg d served (includedHosts cfg d play) files).1 h d.dest =
            files "localhost" (d.pathCached cfg)) := by
  refine ⟨⟨fun hall => ?_, fun hgets served files h hh => downloadFile_checked hsha hgets hh⟩,
    fun hgets served files h hh => downloadFile_unchecked hgets hh⟩
  by_contra hgets
  obtain ⟨good, hgood⟩ := hgood
  obtain ⟨bad, hbad⟩ := hbad
  obtain ⟨files, hfiles, hdone⟩ := exists_unchecked hgets hhosts hgood bad fun _ => none
  obtain ⟨h, hh⟩ := List.exists_mem_of_ne_nil _ hhosts
  rw [← hdone] at hh
  obtain ⟨c, hc, hsum⟩ := hall _ files h hh
  rw [downloadFile_unchecked hgets hh, hfiles] at hc
  cases hc
  exact hbad hsum

end

/-- The archive of etcd. -/
def etcdDownload : FileDownload where
  dest := "/tmp/releases/etcd-v3.5.4-linux-amd64.tar.gz"
  sha256 := "b1091166153df1ee0bb29b47fb1943ef0ddf0cd5d07a8fe69827580a08134def"
  groups := ["etcd"]

/-- `download_force_cache` without `download_run_once`. -/
def forcedCache : FileCacheSettings where
  runOnce := false
  setForceCache := true
  localhost := false
  cacheDir := "/tmp/kubespray_cache"
  firstControlPlane := "node1"

/-- The delegate is not in the etcd group, so the file is not copied to the Ansible host. -/
theorem downloads_checked_separate_etcd :
    let play := [PlayHost.mk "node1" ["kube_control_plane"], PlayHost.mk "node2" ["etcd"]]
    ¬ ∀ (served : String → Option String) (files : HostFiles String),
      ∀ h ∈ (downloadFile id forcedCache etcdDownload served
          (includedHosts forcedCache etcdDownload play) files).2,
        Checked id etcdDownload (downloadFile id forcedCache etcdDownload served
          (includedHosts forcedCache etcdDownload play) files).1 h := by
  intro play hall
  have hgets : GetsDownload forcedCache (includedHosts forcedCache etcdDownload play) :=
    (downloads_checked_iff (by decide) ⟨etcdDownload.sha256, rfl⟩ ⟨"", by decide⟩
      (by decide)).1.1 hall
  exact absurd (hgets rfl) (by decide)

end Kubespray
