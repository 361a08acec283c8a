import Kubespray.Lib.Base64
import Kubespray.Lib.Facts
import Mathlib.Data.List.Nodup

/-!
# The key for encryption at rest

`encrypt-at-rest.yml` reads the key back from the `secrets_encryption.yaml` of the hosts that have
one, sets `kube_encrypt_token` on the whole control plane and writes the file anew. It looks at the
hosts of its batch only: a batch of hosts without the file writes the password of the credentials
directory. `encryption_key_survives` says that all hosts end with the key iff a host of the first
batch has it or it is that password; `encryption_key_survives_fails` upgrades a new host before the
old one. -/

universe u v w

namespace Kubespray

/-! ## The tasks -/

/-- What is read of a `secrets_encryption.yaml`. -/
structure SecretsEncryption (σ : Type w) where
  /-- The name of the first provider. -/
  algorithm : String
  /-- The secret of its first key. -/
  secret : σ
  deriving DecidableEq, Repr

/-- The variables of the role. -/
structure EncryptAtRest (α : Type u) (κ : Type v) (σ : Type w) where
  /-- The group `kube_control_plane`. -/
  kubeControlPlane : List α
  kubeEncryptionAlgorithm : String
  /-- The `lookup` in the default of `kube_encrypt_token`. -/
  kubeEncryptToken : κ
  /-- `b64encode` and `b64decode`. -/
  base64 : Codec κ σ

/-- The files and facts of the hosts. -/
structure EncryptState (α : Type u) (κ : Type v) (σ : Type w) where
  /-- `secrets_encryption.yaml`. -/
  files : α → Option (SecretsEncryption σ)
  /-- The fact `kube_encrypt_token`. -/
  token : HostFact α κ

section
variable {α : Type u} {κ : Type v} {σ : Type w} (role : EncryptAtRest α κ σ)

/-- `Extract secret value from secrets_encryption.yaml`: it fails if `secrets_encryption_query`
finds no secret. -/
def kubeEncryptTokenExtracted (file : SecretsEncryption σ) : Option κ :=
  if file.algorithm = role.kubeEncryptionAlgorithm then role.base64.decode file.secret else none

/-- `secrets_encryption.yaml.j2` on the host `h`. -/
def secretsEncryptionFile (token : HostFact α κ) (h : α) : SecretsEncryption σ where
  algorithm := role.kubeEncryptionAlgorithm
  secret := role.base64.encode ((token h).getD role.kubeEncryptToken)

/-- The file carries the key. -/
def Carries (key : κ) (file : SecretsEncryption σ) : Prop :=
  kubeEncryptTokenExtracted role file = some key

instance [DecidableEq κ] (key : κ) (file : SecretsEncryption σ) :
    Decidable (Carries role key file) :=
  inferInstanceAs (Decidable (_ = _))

variable [DecidableEq α]

/-- `Set kube_encrypt_token across master nodes`, for each key that a host of the batch has
extracted. -/
def setKubeEncryptToken (token : HostFact α κ) (extracted : List κ) : HostFact α κ :=
  extracted.foldl (fun token key => HostFact.setOn role.kubeControlPlane key token) token

/-- `Write secrets for encrypting secret data at rest`, on the hosts of the batch. -/
def writeSecretsEncryption (s : EncryptState α κ σ) (batch : List α) (token : HostFact α κ) :
    EncryptState α κ σ where
  files h := if h ∈ batch then some (secretsEncryptionFile role token h) else s.files h
  token := token

/-- `encrypt-at-rest.yml` on the hosts of a batch. -/
def encryptAtRest (s : EncryptState α κ σ) (batch : List α) : Option (EncryptState α κ σ) :=
  ((batch.filterMap s.files).mapM (kubeEncryptTokenExtracted role)).map fun extracted =>
    writeSecretsEncryption role s batch (setKubeEncryptToken role s.token extracted)

/-- The batches of a run, one after another. -/
def encryptBatches (s : EncryptState α κ σ) (batches : List (List α)) :
    Option (EncryptState α κ σ) :=
  batches.foldlM (encryptAtRest role) s

/-! ## One batch -/

variable {role} {key : κ} {s t : EncryptState α κ σ} {batch : List α} {batches : List (List α)}
  {h : α}

omit [DecidableEq α] in
/-- A file that is written carries the key of the host. -/
theorem extracted_secretsEncryptionFile (token : HostFact α κ) (h : α) :
    kubeEncryptTokenExtracted role (secretsEncryptionFile role token h) =
      some ((token h).getD role.kubeEncryptToken) := by
  rw [kubeEncryptTokenExtracted, secretsEncryptionFile, if_pos rfl, role.base64.decode_encode]

omit [DecidableEq α] in
/-- The files of the batch give their common key. -/
theorem mapM_extracted {files : List (SecretsEncryption σ)}
    (hfiles : ∀ f ∈ files, Carries role key f) :
    files.mapM (kubeEncryptTokenExtracted role) = some (List.replicate files.length key) := by
  induction files with
  | nil => rfl
  | cons f files ih =>
    have hf : kubeEncryptTokenExtracted role f = some key := hfiles f List.mem_cons_self
    rw [List.mapM_cons, hf, ih fun f hf => hfiles f (List.mem_cons_of_mem _ hf)]
    rfl

/-- A key that is extracted any number of times is set on the group, if that is not zero times. -/
theorem setKubeEncryptToken_replicate {token : HostFact α κ} (hh : h ∈ role.kubeControlPlane)
    (n : ℕ) :
    setKubeEncryptToken role token (List.replicate n key) h =
      if n = 0 then token h else some key := by
  rw [setKubeEncryptToken, HostFact.foldl_setOn_of_mem hh, List.getLast?_replicate]
  split <;> rfl

/-- If all files of the batch carry one key, the role succeeds. The hosts of the group then have
this key if a host of the batch has a file, and else what they had. -/
theorem encryptAtRest_of_carries (hfiles : ∀ h ∈ batch, ∀ f ∈ s.files h, Carries role key f) :
    ∃ t, encryptAtRest role s batch = some t ∧
      (∀ h ∈ batch, t.files h = some (secretsEncryptionFile role t.token h)) ∧
      ∀ h ∈ role.kubeControlPlane,
        t.token h = if ∃ h ∈ batch, (s.files h).isSome then some key else s.token h := by
  have hmapM : (batch.filterMap s.files).mapM (kubeEncryptTokenExtracted role) =
      some (List.replicate (batch.filterMap s.files).length key) := by
    refine mapM_extracted fun f hf => ?_
    obtain ⟨h, hh, hfile⟩ := List.mem_filterMap.1 hf
    exact hfiles h hh f hfile
  rw [encryptAtRest, hmapM]
  refine ⟨_, rfl, fun h hh => if_pos hh, fun h hh => ?_⟩
  change setKubeEncryptToken role s.token _ h = _
  rw [setKubeEncryptToken_replicate hh]
  by_cases hsome : ∃ h ∈ batch, (s.files h).isSome
  · obtain ⟨g, hg, hfile⟩ := hsome
    obtain ⟨f, hf⟩ := Option.isSome_iff_exists.1 hfile
    have hpos : (batch.filterMap s.files).length ≠ 0 :=
      mt List.eq_nil_of_length_eq_zero (List.ne_nil_of_mem (List.mem_filterMap.2 ⟨g, hg, hf⟩))
    rw [if_neg hpos, if_pos ⟨g, hg, hfile⟩]
  · have hzero : (batch.filterMap s.files).length = 0 := by
      rw [List.length_eq_zero_iff, List.filterMap_eq_nil_iff]
      intro g hg
      exact Option.not_isSome_iff_eq_none.1 fun hfile => hsome ⟨g, hg, hfile⟩
    rw [if_pos hzero, if_neg hsome]

/-- The files of other hosts are left as they are. -/
theorem encryptAtRest_files_of_notMem (hrun : encryptAtRest role s batch = some t)
    (hh : h ∉ batch) :
    t.files h = s.files h := by
  obtain ⟨extracted, -, rfl⟩ := Option.map_eq_some_iff.1 hrun
  exact if_neg hh

/-! ## All batches -/

theorem encryptBatches_files_of_notMem (hrun : encryptBatches role s batches = some t)
    (hh : h ∉ batches.flatten) : t.files h = s.files h := by
  induction batches generalizing s with
  | nil =>
    cases hrun
    rfl
  | cons batch batches ih =>
    rw [List.flatten_cons, List.mem_append, not_or] at hh
    rw [encryptBatches, List.foldlM_cons] at hrun
    obtain ⟨next, hnext, hrest⟩ := Option.bind_eq_some_iff.1 hrun
    rw [ih hrest hh.2, encryptAtRest_files_of_notMem hnext hh.1]

/-- If all files to come carry the key, and a host of the first batch has one or all hosts would
write it anyway, the batches write it. -/
theorem encryptBatches_of_carries (hnodup : batches.flatten.Nodup)
    (hgroup : ∀ h ∈ batches.flatten, h ∈ role.kubeControlPlane)
    (hfirst : (∃ batch ∈ batches.head?, ∃ h ∈ batch, (s.files h).isSome) ∨
      ∀ h ∈ role.kubeControlPlane, (s.token h).getD role.kubeEncryptToken = key)
    (hfiles : ∀ h ∈ batches.flatten, ∀ f ∈ s.files h, Carries role key f) :
    ∃ t, encryptBatches role s batches = some t ∧
      ∀ h ∈ batches.flatten, ∃ f ∈ t.files h, Carries role key f := by
  induction batches generalizing s with
  | nil => exact ⟨s, rfl, nofun⟩
  | cons batch batches ih =>
    rw [List.flatten_cons] at hnodup hgroup hfiles
    obtain ⟨-, hrestNodup, hdisjoint⟩ := List.nodup_append'.1 hnodup
    obtain ⟨next, hnext, hwritten, hset⟩ :=
      encryptAtRest_of_carries fun h hh => hfiles h (List.mem_append_left _ hh)
    have hkeep : ∀ h ∈ role.kubeControlPlane, (next.token h).getD role.kubeEncryptToken = key := by
      intro h hh
      rw [hset h hh]
      split
      case isTrue => rfl
      case isFalse hnone =>
        refine hfirst.elim (fun hsome => ?_) fun htoken => htoken h hh
        obtain ⟨_, hb, hsome⟩ := hsome
        cases hb
        exact absurd hsome hnone
    have hrestFiles : ∀ h ∈ batches.flatten, ∀ f ∈ next.files h, Carries role key f := by
      intro h hh f hf
      have hnot : h ∉ batch := fun hbatch => hdisjoint hbatch hh
      rw [encryptAtRest_files_of_notMem hnext hnot] at hf
      exact hfiles h (List.mem_append_right _ hh) f hf
    obtain ⟨t, hrun, hall⟩ :=
      ih hrestNodup (fun h hh => hgroup h (List.mem_append_right _ hh)) (.inr hkeep) hrestFiles
    have hcons : encryptBatches role s (batch :: batches) = some t := by
      rw [encryptBatches, List.foldlM_cons, hnext]
      exact hrun
    refine ⟨t, hcons, fun h hh => ?_⟩
    by_cases hlater : h ∈ batches.flatten
    · exact hall h hlater
    · have hbatch : h ∈ batch := (List.mem_append.1 hh).resolve_right hlater
      have hfile : t.files h = some (secretsEncryptionFile role next.token h) := by
        rw [encryptBatches_files_of_notMem hrun hlater, hwritten h hbatch]
      refine ⟨_, hfile, ?_⟩
      rw [Carries, extracted_secretsEncryptionFile, hkeep h (hgroup h hh)]

end

/-! ## A control plane with a key -/

/-- A control plane of which some hosts have a `secrets_encryption.yaml` with the same key, in
batches. -/
structure KeyedControlPlane {α : Type u} {κ : Type v} {σ : Type w}
    (role : EncryptAtRest α κ σ) where
  batches : List (List α)
  nonempty : ∀ batch ∈ batches, batch ≠ []
  group : batches.flatten = role.kubeControlPlane
  nodup : role.kubeControlPlane.Nodup
  /-- The files before the run. -/
  files : α → Option (SecretsEncryption σ)
  key : κ
  exists_file : ∃ h ∈ role.kubeControlPlane, (files h).isSome
  carries : ∀ h ∈ role.kubeControlPlane, ∀ f ∈ files h, Carries role key f

/-- The run on all batches, with no facts set. -/
def KeyedControlPlane.run {α : Type u} {κ : Type v} {σ : Type w} [DecidableEq α]
    {role : EncryptAtRest α κ σ} (plane : KeyedControlPlane role) : Option (EncryptState α κ σ) :=
  encryptBatches role ⟨plane.files, fun _ => none⟩ plane.batches

/-- All hosts end with the key iff a host of the first batch has a file or the key is the password
of the credentials directory. -/
theorem encryption_key_survives {α : Type u} {κ : Type v} {σ : Type w} [DecidableEq α]
    {role : EncryptAtRest α κ σ} (plane : KeyedControlPlane role) :
    (∃ t, plane.run = some t ∧
        ∀ h ∈ role.kubeControlPlane, ∃ f ∈ t.files h, Carries role plane.key f) ↔
      (∃ batch ∈ plane.batches.head?, ∃ h ∈ batch, (plane.files h).isSome) ∨
        role.kubeEncryptToken = plane.key := by
  obtain ⟨batches, hnonempty, hgroup, hnodup, files, key, ⟨g, hg, hfile⟩, hfiles⟩ := plane
  dsimp only [KeyedControlPlane.run]
  rw [← hgroup] at hnodup hg hfiles ⊢
  constructor
  · rintro ⟨t, hrun, hall⟩
    by_contra hnot
    obtain ⟨hnone, hkey⟩ := not_or.1 hnot
    cases batches with
    | nil => cases hg
    | cons first rest =>
      -- the first batch writes the password, and no later batch touches its files
      obtain ⟨h, hh⟩ := List.exists_mem_of_ne_nil first (hnonempty first List.mem_cons_self)
      rw [List.flatten_cons] at hnodup hfiles
      obtain ⟨next, hnext, hwritten, hset⟩ := encryptAtRest_of_carries
        (s := ⟨files, fun _ => none⟩) fun h hh => hfiles h (List.mem_append_left _ hh)
      have htoken : next.token h = none := by
        rw [hset h (hgroup ▸ List.mem_append_left _ hh),
          if_neg fun hsome => hnone ⟨first, rfl, hsome⟩]
      rw [encryptBatches, List.foldlM_cons, hnext] at hrun
      have hlater : h ∉ rest.flatten := fun hlater => (List.nodup_append'.1 hnodup).2.2 hh hlater
      have hfile : t.files h = some (secretsEncryptionFile role next.token h) := by
        rw [encryptBatches_files_of_notMem hrun hlater, hwritten h hh]
      obtain ⟨f, hf, hcarries⟩ := hall h (List.mem_append_left _ hh)
      rw [hfile] at hf
      cases hf
      rw [Carries, extracted_secretsEncryptionFile, htoken] at hcarries
      exact hkey (Option.some.inj hcarries)
  · intro hfirst
    exact encryptBatches_of_carries hnodup (fun h hh => hgroup ▸ hh)
      (hfirst.imp_right fun hkey _ _ => hkey) hfiles

/-- Two hosts, with the password `pw` in the credentials directory. -/
def newAndOldRole : EncryptAtRest String (List UInt8) (List Char) where
  kubeControlPlane := ["new", "old"]
  kubeEncryptionAlgorithm := "secretbox"
  kubeEncryptToken := [112, 119]
  base64 := Base64.codec

/-- The file of the old host, with the key `key`. -/
def oldFile (h : String) : Option (SecretsEncryption (List Char)) :=
  if h = "old" then some ⟨"secretbox", "a2V5".toList⟩ else none

/-- Both hosts in one batch. -/
def newWithOld : KeyedControlPlane newAndOldRole where
  batches := [["new", "old"]]
  nonempty := by decide
  group := rfl
  nodup := by decide
  files := oldFile
  key := [107, 101, 121]
  exists_file := by decide
  carries := by decide

theorem encryption_key_survives_new_with_old :
    ∃ t, newWithOld.run = some t ∧
      ∀ h ∈ newAndOldRole.kubeControlPlane, ∃ f ∈ t.files h,
        Carries newAndOldRole newWithOld.key f :=
  (encryption_key_survives newWithOld).2 (.inl ⟨_, rfl, "old", by decide, rfl⟩)

/-- Each host in a batch of its own. -/
def newThenOld : KeyedControlPlane newAndOldRole :=
  { newWithOld with
    batches := [["new"], ["old"]]
    nonempty := by decide
    group := rfl }

/-- The new host gets the password. -/
theorem encryption_key_survives_fails :
    ¬ ∃ t, newThenOld.run = some t ∧
      ∀ h ∈ newAndOldRole.kubeControlPlane, ∃ f ∈ t.files h,
        Carries newAndOldRole newThenOld.key f := by
  rintro ⟨t, hrun, hall⟩
  have hfile :
      (newThenOld.run.bind fun t => t.files "new") = some ⟨"secretbox", "cHc=".toList⟩ := by
    decide
  rw [hrun, Option.bind_some] at hfile
  obtain ⟨f, hf, hcarries⟩ := hall "new" (by decide)
  rw [hfile] at hf
  cases hf
  revert hcarries
  decide

end Kubespray
