import Kubespray.Lib.Fields
import Kubespray.Lib.Grep

/-!
# Container images for an offline environment

`contrib/offline/manage-offline-container-images.sh`: `create` saves the images of a cluster into
files with a list of their names, `register` loads the files and pushes the images to a registry on
the local host. File names replace slashes and colons, and the names in the list lack a well-known
registry in front, so that two images can get one of either. `offline_transfer_iff` says when every
image arrives under its own name.
-/

namespace Kubespray

open Py

/-! ## Image references -/

/-- The characters of repositories and tags. -/
def isReferenceChar (c : Char) : Bool := c.isAlphanum || ['.', '_', '-', '/', ':'].contains c

/-- A repository with a tag. -/
structure ImageReference where
  repo : String
  tag : String
  /-- A repository starts with a letter or a digit. -/
  repo_start : repo.toList.head?.any Char.isAlphanum = true
  tag_ne : tag ≠ ""
  repo_plain : repo.toList.all isReferenceChar = true
  /-- A tag has no slash and no colon. -/
  tag_plain : tag.toList.all (fun c => isReferenceChar c && c != '/' && c != ':') = true

/-- The text of a reference. -/
def ImageReference.text (i : ImageReference) : String := i.repo ++ ":" ++ i.tag

/-- The registries whose names `create_container_image_tar` removes. -/
def strippedRegistries : List String := ["registry.k8s.io", "gcr.io", "docker.io", "quay.io"]

/-- The name under which an image is to be found: without a stripped registry in front. -/
def strippedName (privateRegistry image : String) : String :=
  match splitOnce '/' image with
  | some (first, rest) =>
    if first ∈ strippedRegistries ∨ first = privateRegistry then rest else image
  | none => image

/-! ## `create_container_image_tar` -/

/-- `FILE_NAME`. -/
def imageTarName (image : String) : String :=
  replaceChars [':'] '-' (replaceChars ['/'] '-' image) ++ ".tar"

/-- `FIRST_PART`, by `awk -F"/"`. -/
def firstPart (image : String) : String := (split '/' image).head?.getD ""

/-- The image name in the list. -/
def listedName (privateRegistry image : String) : String :=
  if firstPart image ∈ strippedRegistries ∨ firstPart image = privateRegistry then
    Grep.delete (firstPart image ++ "/") image
  else image

/-- A file of `docker save`: the reference it was saved under, and the id of the image. -/
structure ImageArchive where
  name : String
  id : String
  deriving DecidableEq, Repr

/-- The directory `container-images`. -/
structure ImageDir where
  files : List (String × ImageArchive)
  /-- The lines of `container-images.txt`. -/
  list : List String

/-- One image of the loop, after its pull; `content` gives the id of every image. -/
def saveForOffline (content : String → String) (privateRegistry : String) (dir : ImageDir)
    (image : String) : ImageDir where
  files := Assoc.insert (imageTarName image) ⟨image, content image⟩ dir.files
  list := dir.list ++ [imageTarName image ++ "  " ++ listedName privateRegistry image]

/-- `create_container_image_tar`. -/
def createContainerImageTar (content : String → String) (privateRegistry : String)
    (images : List String) : ImageDir :=
  images.foldl (saveForOffline content privateRegistry)
    ⟨[("registry-latest.tar", ⟨"registry:latest", content "registry:latest"⟩)], []⟩

/-! ## `register_container_images` -/

/-- A field of a line, by `awk`; `n` counts from 0. -/
def awkField (n : Nat) (line : String) : String := ((Fields.fields line)[n]?).getD ""

/-- One line of the list, with the images of the registry. `docker load` prints the name in the
file, and loading it makes this the name of its image. -/
def registerLine (files : List (String × ImageArchive)) (localhostName : String)
    (registry : List (String × String)) (line : String) :
    Except String (List (String × String)) :=
  let fileName := awkField 0 line
  let rawImage := awkField 1 line
  let newImage := localhostName ++ ":5000/" ++ rawImage
  let loaded := Assoc.lookup fileName files
  let orgImage := (loaded.map ImageArchive.name).getD ""
  let imageId := (loaded.map ImageArchive.id).getD ""
  if fileName = "" then .error ("Failed to get file_name for line " ++ line)
  else if rawImage = "" then .error ("Failed to get raw_image for line " ++ line)
  else if orgImage = "" then .error ("Failed to get org_image for line " ++ line)
  else if imageId = "" then .error ("Failed to get image_id for file " ++ fileName)
  else .ok (Assoc.insert newImage imageId registry)

/-- `register_container_images`, from an empty registry: the images that are pushed. Without a list
the loop reads one empty line. -/
def registerContainerImages (dir : ImageDir) (localhostName : String) :
    Except String (List (String × String)) :=
  (if dir.list = [] then [""] else dir.list).foldlM (registerLine dir.files localhostName) []

/-- The registry has each image under its stripped name. -/
def Transferred (content : String → String) (privateRegistry localhostName : String)
    (images : List ImageReference) : Prop :=
  ∀ i ∈ images, ∃ registry, registerContainerImages
      (createContainerImageTar content privateRegistry (images.map ImageReference.text))
      localhostName = .ok registry ∧
    Assoc.lookup (localhostName ++ ":5000/" ++ strippedName privateRegistry i.text) registry =
      some (content i.text)

/-! ## Names of references -/

section
variable {i j : ImageReference} {image privateRegistry : String}

theorem isBlank_of_isReferenceChar {c : Char} (h : isReferenceChar c = true) :
    Fields.isBlank c = false := by
  by_contra hblank
  rw [Bool.not_eq_false, Fields.isBlank, Bool.or_eq_true, beq_iff_eq, beq_iff_eq] at hblank
  rcases hblank with rfl | rfl <;> revert h <;> decide

/-- A reference consists of characters of references. -/
theorem ImageReference.isReferenceChar_of_mem {c : Char} (h : c ∈ i.text.toList) :
    isReferenceChar c = true := by
  rw [text, String.toList_append, String.toList_append, List.mem_append, List.mem_append] at h
  rcases h with (h | h) | h
  · exact List.all_eq_true.1 i.repo_plain c h
  · rw [List.mem_singleton.1 (show c ∈ [':'] from h)]
    decide
  · have htag := List.all_eq_true.1 i.tag_plain c h
    rw [Bool.and_eq_true, Bool.and_eq_true] at htag
    exact htag.1.1

theorem ImageReference.unbroken_text (i : ImageReference) : Fields.Unbroken i.text :=
  fun _ h => isBlank_of_isReferenceChar (isReferenceChar_of_mem h)

theorem ImageReference.text_ne (i : ImageReference) : i.text ≠ "" := by
  have hcolon : ':' ∈ i.text.toList := by simp [text]
  exact ne_empty_of_mem hcolon

/-- Something is left of a reference after each of its slashes. -/
theorem ImageReference.rest_ne {first rest : String} (h : i.text = first ++ "/" ++ rest) :
    rest ≠ "" := by
  rintro rfl
  obtain ⟨tag, c, htag⟩ := (List.eq_nil_or_concat i.tag.toList).resolve_left
    (mt String.toList_eq_nil_iff.1 i.tag_ne)
  have hc := List.all_eq_true.1 i.tag_plain c (by simp [htag])
  have hends : (i.repo.toList ++ ':' :: tag) ++ [c] = first.toList ++ ['/'] := by
    have hchars := congrArg String.toList h
    simpa [ImageReference.text, htag] using hchars
  rw [List.singleton_inj.1 (List.append_inj' hends rfl).2] at hc
  simp at hc

theorem imageTarName_eq_iff {image image' : String} :
    imageTarName image = imageTarName image' ↔ EqualUpTo ['-', '/', ':'] image image' := by
  rw [imageTarName, imageTarName, String.append_left_inj, replaceChars_replaceChars,
    replaceChars_replaceChars, replaceChars_eq_iff]
  rfl

/-- File names have no blanks. -/
theorem unbroken_imageTarName (h : Fields.Unbroken image) :
    Fields.Unbroken (imageTarName image) := by
  intro c hc
  rw [imageTarName, replaceChars_replaceChars, replaceChars, String.toList_append,
    String.toList_ofList, List.mem_append, List.mem_map] at hc
  rcases hc with ⟨d, hd, rfl⟩ | hc
  · split
    · rfl
    · exact h d hd
  · have htar : ".tar".toList.all (fun c => !Fields.isBlank c) = true := by decide
    simpa using List.all_eq_true.1 htar c hc

theorem imageTarName_ne : imageTarName image ≠ "" := by
  have hdot : '.' ∈ (imageTarName image).toList := by simp [imageTarName]
  exact ne_empty_of_mem hdot

/-- The list has each image under its stripped name. -/
theorem listedName_eq : listedName privateRegistry image = strippedName privateRegistry image := by
  by_cases hslash : '/' ∈ image.toList
  · obtain ⟨first, rest, rfl, hfirst⟩ := exists_eq_append_of_mem hslash
    have hpart : firstPart (first ++ String.singleton '/' ++ rest) = first := by
      rw [firstPart, split_append hfirst]
      rfl
    have hslash : '/' ∈ (first ++ "/").toList := by simp
    rw [listedName, strippedName, splitOnce_append hfirst, hpart]
    show _ = if first ∈ strippedRegistries ∨ first = privateRegistry then rest else _
    exact if_congr .rfl (Grep.delete_append (ne_empty_of_mem hslash) rest) rfl
  · have hfirst : firstPart image = image := by
      rw [firstPart, split_of_not_mem hslash]
      rfl
    rw [listedName, strippedName, splitOnce_of_not_mem hslash, hfirst]
    split
    · exact Grep.delete_of_length_lt (by simp)
    · rfl

/-- A stripped name is a part of the reference that is not empty. -/
theorem strippedName_spec (privateRegistry : String) (i : ImageReference) :
    Fields.Unbroken (strippedName privateRegistry i.text) ∧
      strippedName privateRegistry i.text ≠ "" := by
  have hself : Fields.Unbroken i.text ∧ i.text ≠ "" := ⟨i.unbroken_text, i.text_ne⟩
  unfold strippedName
  split
  · next first rest hsplit =>
    split
    · have htext := eq_of_splitOnce hsplit
      refine ⟨fun c hc => i.unbroken_text c ?_, i.rest_ne htext⟩
      rw [htext, String.toList_append]
      exact List.mem_append_right _ hc
    · exact hself
  · exact hself

/-- The fields of a line of the list. -/
theorem awkField_line {file name : String} (hfile : Fields.Unbroken file ∧ file ≠ "")
    (hname : Fields.Unbroken name ∧ name ≠ "") :
    awkField 0 (file ++ "  " ++ name) = file ∧ awkField 1 (file ++ "  " ++ name) = name := by
  have hline : file ++ "  " ++ name =
      file ++ String.singleton ' ' ++ ("" ++ String.singleton ' ' ++ name) := by
    simp [← String.toList_inj]
  have hfields : Fields.fields (file ++ "  " ++ name) = [file, name] := by
    rw [hline, Fields.fields_append_blank rfl, Fields.fields_append_blank rfl,
      Fields.fields_unbroken hfile.1 hfile.2, Fields.fields_unbroken hname.1 hname.2]
    rfl
  rw [awkField, awkField, hfields]
  exact ⟨rfl, rfl⟩

end

/-! ## The transfer -/

section
variable {content : String → String} {privateRegistry localhostName : String}
  {images : List ImageReference} {i : ImageReference}

/-- What `create_container_image_tar` leaves. -/
theorem createContainerImageTar_eq (images : List String) :
    createContainerImageTar content privateRegistry images =
      ⟨Assoc.insertAll
          [("registry-latest.tar", ⟨"registry:latest", content "registry:latest"⟩)]
          (images.map fun image => (imageTarName image, ⟨image, content image⟩)),
        images.map fun image =>
          imageTarName image ++ "  " ++ listedName privateRegistry image⟩ := by
  have hfold : ∀ dir, images.foldl (saveForOffline content privateRegistry) dir =
      ⟨Assoc.insertAll dir.files
          (images.map fun image => (imageTarName image, ⟨image, content image⟩)),
        dir.list ++ images.map fun image =>
          imageTarName image ++ "  " ++ listedName privateRegistry image⟩ := by
    induction images with
    | nil => simp
    | cons image images ih =>
      intro dir
      rw [List.foldl_cons, ih, saveForOffline]
      simp
  rw [createContainerImageTar, hfold]
  rfl

/-- The files that `create_container_image_tar` leaves for these images. -/
def offlineFiles (content : String → String) (images : List ImageReference) :
    List (String × ImageArchive) :=
  Assoc.insertAll [("registry-latest.tar", ⟨"registry:latest", content "registry:latest"⟩)]
    (images.map fun i => (imageTarName i.text, ⟨i.text, content i.text⟩))

/-- A file has the name of the image in it. -/
theorem archive_of_lookup {file : String} {a : ImageArchive}
    (h : Assoc.lookup file (offlineFiles content images) = some a) :
    a.name ≠ "" ∧ a.id = content a.name ∧ imageTarName a.name = file := by
  rcases Assoc.mem_of_mem_insertAll (Assoc.mem_of_lookup h) with hmem | hmem
  · obtain ⟨rfl, rfl⟩ := Prod.mk.inj (List.mem_singleton.1 hmem)
    have hne : "registry:latest" ≠ "" := by decide
    have hfile : imageTarName "registry:latest" = "registry-latest.tar" := by decide
    exact ⟨hne, rfl, hfile⟩
  · obtain ⟨i, -, hi⟩ := List.mem_map.1 hmem
    obtain ⟨rfl, rfl⟩ := Prod.mk.inj hi
    exact ⟨i.text_ne, rfl, rfl⟩

/-- Every image has a file. -/
theorem exists_archive (hi : i ∈ images) :
    ∃ a, Assoc.lookup (imageTarName i.text) (offlineFiles content images) = some a := by
  refine Option.isSome_iff_exists.1 (Assoc.lookup_isSome.2 ?_)
  rw [offlineFiles, Assoc.mem_keys_insertAll]
  refine .inr ?_
  rw [Assoc.keys, List.map_map]
  exact List.mem_map_of_mem hi

/-- The id of the image in the file of a reference. -/
def savedId (content : String → String) (images : List ImageReference) (i : ImageReference) :
    String :=
  ((Assoc.lookup (imageTarName i.text) (offlineFiles content images)).map ImageArchive.id).getD ""

/-- What is pushed. -/
def pushed (content : String → String) (privateRegistry localhostName : String)
    (images : List ImageReference) : List (String × String) :=
  images.map fun i => (localhostName ++ ":5000/" ++ strippedName privateRegistry i.text,
    savedId content images i)

/-- `register_container_images` pushes the images of the files under the stripped names. -/
theorem registerContainerImages_eq (hcontent : ∀ image, content image ≠ "")
    (himages : images ≠ []) :
    registerContainerImages
        (createContainerImageTar content privateRegistry (images.map ImageReference.text))
        localhostName =
      .ok (Assoc.insertAll [] (pushed content privateRegistry localhostName images)) := by
  have hfiles : (createContainerImageTar content privateRegistry
      (images.map ImageReference.text)).files = offlineFiles content images := by
    rw [createContainerImageTar_eq, List.map_map]
    rfl
  have hlist : (createContainerImageTar content privateRegistry
      (images.map ImageReference.text)).list =
        images.map fun i => imageTarName i.text ++ "  " ++ strippedName privateRegistry i.text := by
    rw [createContainerImageTar_eq]
    show (images.map ImageReference.text).map _ = _
    rw [List.map_map]
    exact List.map_congr_left fun i _ => by rw [Function.comp, listedName_eq]
  rw [registerContainerImages, hfiles, hlist, if_neg (mt List.map_eq_nil_iff.1 himages),
    List.foldlM_map, pushed, Assoc.insertAll, List.foldl_map]
  refine foldlM_eq_ok_foldl (r := id) fun registry i hi => ?_
  obtain ⟨a, ha⟩ := @exists_archive content images i hi
  obtain ⟨hname, hid, -⟩ := archive_of_lookup ha
  have hfile : Fields.Unbroken (imageTarName i.text) ∧ imageTarName i.text ≠ "" :=
    ⟨unbroken_imageTarName i.unbroken_text, imageTarName_ne⟩
  have hstripped := strippedName_spec privateRegistry i
  obtain ⟨hfirst, hsecond⟩ := awkField_line hfile hstripped
  have hidne : a.id ≠ "" := by
    rw [hid]
    exact hcontent a.name
  simp only [registerLine, hfirst, hsecond, savedId, ha, Option.map_some, Option.getD_some,
    if_neg hfile.2, if_neg hstripped.2, if_neg hname, if_neg hidne, id]

theorem transferred_iff (hcontent : ∀ image, content image ≠ "") :
    Transferred content privateRegistry localhostName images ↔
      ∀ i ∈ images,
        Assoc.lookup (localhostName ++ ":5000/" ++ strippedName privateRegistry i.text)
          (Assoc.insertAll [] (pushed content privateRegistry localhostName images)) =
            some (content i.text) := by
  refine forall₂_congr fun i hi => ?_
  rw [registerContainerImages_eq hcontent (List.ne_nil_of_mem hi)]
  simp

/-- For all contents of the images, each of a list of different references arrives under its stripped
name iff no two of them are equal but for slashes, colons and dashes, and no two have the same
stripped name. -/
theorem offline_transfer_iff (privateRegistry localhostName : String)
    (images : List ImageReference) (hdiff : (images.map ImageReference.text).Nodup) :
    (∀ content : String → String, (∀ image, content image ≠ "") →
      Transferred content privateRegistry localhostName images) ↔
    images.Pairwise fun i j => ¬ EqualUpTo ['-', '/', ':'] i.text j.text ∧
      strippedName privateRegistry i.text ≠ strippedName privateRegistry j.text := by
  constructor
  · intro h
    -- contents by which the images can be told apart
    let content : String → String := fun image => "sha256:" ++ image
    have hinj : ∀ {a b}, content a = content b → a = b := fun he => (String.append_right_inj _).1 he
    have hcontent : ∀ image, content image ≠ "" :=
      fun image => ne_empty_of_mem (c := ':') (by simp [content])
    have hall := (transferred_iff hcontent).1 (h content hcontent)
    -- the file of a reference has the image of that reference in it
    have hfile : ∀ i ∈ images, ∃ a,
        Assoc.lookup (imageTarName i.text) (offlineFiles content images) = some a ∧
          a.name = i.text := by
      intro i hi
      have hpushed := (Assoc.mem_of_mem_insertAll (Assoc.mem_of_lookup (hall i hi))).resolve_left
        List.not_mem_nil
      obtain ⟨k, hk, hki⟩ := List.mem_map.1 hpushed
      obtain ⟨a, ha⟩ := @exists_archive content images k hk
      obtain ⟨-, hid, hname⟩ := archive_of_lookup ha
      have hsaved : savedId content images k = content i.text := (Prod.mk.inj hki).2
      rw [savedId, ha] at hsaved
      have hai : a.name = i.text := hinj (hid.symm.trans hsaved)
      refine ⟨a, ?_, hai⟩
      rw [← hai, hname]
      exact ha
    refine (List.pairwise_map.1 hdiff).imp_of_mem fun {i j} hi hj hne => ⟨fun hlike => ?_,
      fun hname => ?_⟩
    · obtain ⟨a, ha, hai⟩ := hfile i hi
      obtain ⟨b, hb, hbj⟩ := hfile j hj
      rw [imageTarName_eq_iff.2 hlike, hb] at ha
      cases ha
      exact hne (hai.symm.trans hbj)
    · have hi' := hall i hi
      rw [hname, hall j hj] at hi'
      exact hne (hinj (Option.some.inj hi')).symm
  · intro h content hcontent
    refine (transferred_iff hcontent).2 fun i hi => ?_
    have hfiles : (Assoc.keys (images.map fun i =>
        (imageTarName i.text, ImageArchive.mk i.text (content i.text)))).Nodup := by
      rw [Assoc.keys, List.map_map]
      exact List.pairwise_map.2 (h.imp fun hij he => hij.1 (imageTarName_eq_iff.1 he))
    have hnames : (Assoc.keys (pushed content privateRegistry localhostName images)).Nodup := by
      rw [pushed, Assoc.keys, List.map_map]
      exact List.pairwise_map.2 (h.imp fun hij he => hij.2 ((String.append_right_inj _).1 he))
    have hsaved : savedId content images i = content i.text := by
      rw [savedId, offlineFiles, Assoc.lookup_insertAll hfiles,
        Assoc.lookup_of_mem hfiles (List.mem_map_of_mem hi)]
      rfl
    rw [Assoc.lookup_insertAll hnames, Assoc.lookup_of_mem hnames (List.mem_map_of_mem hi), hsaved]
    rfl

end

/-- A reference of a registry. -/
def etcdReference : ImageReference where
  repo := "quay.io/coreos/etcd"
  tag := "v3.5.4"
  repo_start := by decide
  tag_ne := by decide
  repo_plain := by decide
  tag_plain := by decide

/-- A reference without a registry. -/
def nginxReference : ImageReference where
  repo := "nginx"
  tag := "1.19"
  repo_start := by decide
  tag_ne := by decide
  repo_plain := by decide
  tag_plain := by decide

/-- The image of another registry with the stripped name of `etcdReference`. -/
def mirrorReference : ImageReference where
  repo := "docker.io/coreos/etcd"
  tag := "v3.5.4"
  repo_start := by decide
  tag_ne := by decide
  repo_plain := by decide
  tag_plain := by decide

/-- Two images that keep different names arrive, one of them under a shorter name. -/
theorem offline_transfer_two : strippedName "" etcdReference.text = "coreos/etcd:v3.5.4" ∧
    ∀ content : String → String, (∀ image, content image ≠ "") →
      Transferred content "" "node1" [etcdReference, nginxReference] := by
  refine ⟨by decide, (offline_transfer_iff "" "node1" _ (by decide)).2 ?_⟩
  exact List.pairwise_pair.2 (by decide)

/-- The list of references with the stripped name of `etcdReference` twice leaves one image under
it. -/
theorem offline_transfer_fails :
    ¬ ∀ (privateRegistry localhostName : String) (images : List ImageReference),
      (images.map ImageReference.text).Nodup →
      ∀ content : String → String, (∀ image, content image ≠ "") →
        Transferred content privateRegistry localhostName images := by
  intro h
  have hcontent : ∀ image, "sha256:" ++ image ≠ "" :=
    fun image => ne_empty_of_mem (c := ':') (by simp)
  have hetcd := (transferred_iff hcontent).1
    (h "" "node1" [etcdReference, mirrorReference] (by decide) _ hcontent)
    etcdReference List.mem_cons_self
  revert hetcd
  decide

end Kubespray
