import Kubespray.Download.ContainerCache
import Kubespray.Download.FileCache
import Kubespray.Lib.OrdDict
import Mathlib.Data.List.Infix

/-!
# The images that kubeadm asks for

`prep_kubeadm_images.yml` of `roles/download` takes the lines of `kubeadm config images list` apart
into a repository and a tag, names each image after the last part of its path and joins the images
with the other downloads. An image is pulled under just the reference of its line
(`imageReponame_kubeadmImage`); it is lost iff another line has the same last part
(`kubeadm_images_iff`).
-/

namespace Kubespray

/-- An item of `downloads`. -/
inductive Download where
  | file (d : FileDownload)
  | container (d : ContainerDownload)

/-- `kubeadm config images list | grep -Ev 'coredns|pause'`. -/
def kubeadmImagesList (stdout : List String) : List String :=
  stdout.filter fun line =>
    ¬ ("coredns".toList <:+: line.toList ∨ "pause".toList <:+: line.toList)

/-- `(item | regex_replace('^(?:.*\/)*','')).split(':')[0]`. -/
def imageShortName (item : String) : String :=
  (Py.split ':' (Py.afterLast '/' item)).head?.getD ""

/-- `kubeadm_image`: its key, and its value as an item of `downloads`. The regular expressions of
`repo` and `tag` leave a text without a colon as it is. -/
def kubeadmImage (item : String) : String × ContainerDownload :=
  ("kubeadm_" ++ imageShortName item,
    { repo := Py.beforeLast ':' item, tag := Py.afterLast ':' item })

/-- `kubeadm_images`. -/
def kubeadmImages (items : List String) : List (String × ContainerDownload) :=
  Assoc.insertAll [] (items.map kubeadmImage)

/-- `downloads | combine(kubeadm_images)`. -/
def allDownloads (downloads : List (String × Download)) (items : List String) :
    List (String × Download) :=
  Assoc.insertAll downloads ((kubeadmImages items).map fun p => (p.1, .container p.2))

section
variable {items : List String} {item : String}

/-- The image is pulled under the reference of its line. -/
theorem imageReponame_kubeadmImage (h : ':' ∈ item.toList) :
    (kubeadmImage item).2.imageReponame = item :=
  Py.beforeLast_append_afterLast h

theorem mem_kubeadmImages {p : String × ContainerDownload} (h : p ∈ kubeadmImages items) :
    ∃ item ∈ items, p = kubeadmImage item := by
  rcases Assoc.mem_of_mem_insertAll h with h | h
  · cases h
  · obtain ⟨item, hitem, heq⟩ := List.mem_map.1 h
    exact ⟨item, hitem, heq.symm⟩

theorem nodup_keys_kubeadmImages (items : List String) :
    (Assoc.keys (kubeadmImages items)).Nodup :=
  Assoc.nodup_keys_insertAll (l := []) List.nodup_nil _

/-- All images are among the downloads iff no two of them have the same short name. -/
theorem kubeadmImages_complete_iff (hcolon : ∀ item ∈ items, ':' ∈ item.toList)
    (hnd : items.Nodup) :
    (∀ item ∈ items, ∃ p ∈ kubeadmImages items, p.2.imageReponame = item) ↔
      (items.map imageShortName).Nodup := by
  have hkey : ∀ i j, (kubeadmImage i).1 = (kubeadmImage j).1 ↔
      imageShortName i = imageShortName j := by
    intro i j
    exact String.append_right_inj _
  have hkeys := nodup_keys_kubeadmImages items
  constructor
  · intro h
    have hmem : ∀ item ∈ items, kubeadmImage item ∈ kubeadmImages items := by
      intro item hitem
      obtain ⟨p, hp, hname⟩ := h item hitem
      obtain ⟨item', hitem', rfl⟩ := mem_kubeadmImages hp
      rw [imageReponame_kubeadmImage (hcolon item' hitem')] at hname
      rwa [hname] at hp
    refine hnd.map_on fun i hi j hj heq => ?_
    have hi' := hmem i hi
    have hj' := hmem j hj
    have hvalue : (kubeadmImage i).2 = (kubeadmImage j).2 := by
      refine Assoc.eq_of_mem hkeys (k := (kubeadmImage i).1) hi' ?_
      rw [(hkey i j).2 heq]
      exact hj'
    rw [← imageReponame_kubeadmImage (hcolon i hi), hvalue,
      imageReponame_kubeadmImage (hcolon j hj)]
  · intro h item hitem
    have hnames : (Assoc.keys (items.map kubeadmImage)).Nodup := by
      rw [Assoc.keys, List.map_map]
      refine hnd.map_on fun i hi j hj heq => ?_
      exact List.inj_on_of_nodup_map h hi hj ((hkey i j).1 heq)
    refine ⟨kubeadmImage item, ?_, imageReponame_kubeadmImage (hcolon item hitem)⟩
    refine Assoc.mem_of_lookup ?_
    rw [kubeadmImages, Assoc.lookup_insertAll hnames,
      Assoc.lookup_of_mem hnames (List.mem_map_of_mem hitem)]
    rfl

/-- What is downloaded: the items of `downloads` under other keys, and images under the references
of lines that kubeadm has printed; all of these iff no two have the same short name. -/
theorem kubeadm_images_iff (downloads : List (String × Download)) {stdout : List String}
    (hcolon : ∀ item ∈ kubeadmImagesList stdout, ':' ∈ item.toList)
    (hnd : (kubeadmImagesList stdout).Nodup) :
    (∀ key, key ∉ Assoc.keys (kubeadmImages (kubeadmImagesList stdout)) →
      Assoc.lookup key (allDownloads downloads (kubeadmImagesList stdout)) =
        Assoc.lookup key downloads) ∧
    (∀ key d, (key, d) ∈ kubeadmImages (kubeadmImagesList stdout) →
      Assoc.lookup key (allDownloads downloads (kubeadmImagesList stdout)) = some (.container d) ∧
        d.imageReponame ∈ kubeadmImagesList stdout) ∧
    ((∀ item ∈ kubeadmImagesList stdout, ∃ key d,
        (key, d) ∈ kubeadmImages (kubeadmImagesList stdout) ∧ d.imageReponame = item) ↔
      ((kubeadmImagesList stdout).map imageShortName).Nodup) := by
  generalize kubeadmImagesList stdout = items at hcolon hnd ⊢
  have hkeys : Assoc.keys ((kubeadmImages items).map fun p => (p.1, Download.container p.2)) =
      Assoc.keys (kubeadmImages items) := by
    rw [Assoc.keys, List.map_map]
    rfl
  have hkeys_nodup := nodup_keys_kubeadmImages items
  refine ⟨fun key hkey => ?_, fun key d hd => ⟨?_, ?_⟩, ?_⟩
  · rw [allDownloads, Assoc.lookup_insertAll_of_not_mem (hkeys ▸ hkey)]
  · rw [allDownloads, Assoc.lookup_insertAll (hkeys ▸ hkeys_nodup), Assoc.lookup_map_snd,
      Assoc.lookup_of_mem hkeys_nodup hd]
    rfl
  · obtain ⟨item, hitem, heq⟩ := mem_kubeadmImages hd
    have hname : d = (kubeadmImage item).2 := congrArg Prod.snd heq
    rw [hname, imageReponame_kubeadmImage (hcolon item hitem)]
    exact hitem
  · rw [← kubeadmImages_complete_iff hcolon hnd]
    exact forall₂_congr fun item _ => by rw [Prod.exists]

end

/-- The lines of `kubeadm config images list`. -/
def kubeadmStdout : List String :=
  ["k8s.gcr.io/kube-apiserver:v1.24.2", "k8s.gcr.io/kube-proxy:v1.24.2", "k8s.gcr.io/pause:3.7",
    "k8s.gcr.io/coredns/coredns:v1.8.6"]

/-- Two of the images are among the downloads, each under its reference. -/
theorem kubeadm_images_two :
    (∃ key d, (key, d) ∈ kubeadmImages (kubeadmImagesList kubeadmStdout) ∧
      d.imageReponame = "k8s.gcr.io/kube-apiserver:v1.24.2") ∧
    ∃ key d, (key, d) ∈ kubeadmImages (kubeadmImagesList kubeadmStdout) ∧
      d.imageReponame = "k8s.gcr.io/kube-proxy:v1.24.2" := by
  have hlist : kubeadmImagesList kubeadmStdout =
      ["k8s.gcr.io/kube-apiserver:v1.24.2", "k8s.gcr.io/kube-proxy:v1.24.2"] := by decide +kernel
  have hcolon : ∀ item ∈ kubeadmImagesList kubeadmStdout, ':' ∈ item.toList := by decide +kernel
  have hiff := (kubeadm_images_iff [] hcolon (by decide +kernel)).2.2
  rw [hlist] at hiff
  rw [hlist]
  have hall := hiff.2 (by decide +kernel)
  exact ⟨hall _ List.mem_cons_self, hall _ (List.mem_cons_of_mem _ List.mem_cons_self)⟩

end Kubespray
