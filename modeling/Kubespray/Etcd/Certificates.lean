import Kubespray.Lib.PyStr

/-!
# The certificates of etcd

The generation and the distribution of etcd's certificates (`roles/etcd`): `check_certs.yml`, the
script `make-ssl-etcd.sh` and `gen_certs_script.yml`, on the certificate directories of all hosts.
The checks and the script work on the directory of the first etcd host; the files then go to the
other hosts of the play.
-/

namespace Kubespray

/-! ## Files and certificates -/

/-- A certificate authority, by its key. -/
abbrev CA := Nat

/-- The content of a file. Keys and certificates have serial numbers, so that those made in
different runs of the script differ. -/
inductive Content where
  /-- The certificate of an authority. -/
  | caCert (ca : CA)
  /-- The private key of an authority. -/
  | caKey (ca : CA)
  /-- A private key. -/
  | key (serial : Nat)
  /-- A certificate for a subject, signed by an authority. -/
  | cert (subject : String) (ca : CA) (serial : Nat)
  /-- Anything else. -/
  | other (text : String)
  deriving DecidableEq, Repr

/-- A certificate directory, `etcd_cert_dir` of a host. -/
abbrev CertDir := String → Option Content

/-- The kinds of certificates. -/
inductive CertKind where
  | member | admin | node
  deriving DecidableEq, Repr

/-- The word for a kind in file names and subjects. -/
def CertKind.word : CertKind → String
  | .member => "member"
  | .admin => "admin"
  | .node => "node"

/-- A certificate that the script makes: its kind and its host. -/
structure CertName where
  kind : CertKind
  host : String
  deriving DecidableEq, Repr

namespace CertName

/-- `kind-host.pem`. -/
def cert (c : CertName) : String := c.kind.word ++ "-" ++ c.host ++ ".pem"

/-- `kind-host-key.pem`. -/
def key (c : CertName) : String := c.kind.word ++ "-" ++ c.host ++ "-key.pem"

/-- The files of the certificate and its key. -/
def files (c : CertName) : List String := [c.cert, c.key]

/-- The subject, with the part of the host's name before the first dot (`${host%%.*}`). -/
def subject (c : CertName) : String :=
  "/CN=etcd-" ++ c.kind.word ++ "-" ++ (Py.split '.' c.host).head?.getD ""

end CertName

/-- The groups of the inventory that have certificates. -/
structure CertInventory where
  /-- The first host of the etcd group. -/
  first : String
  /-- The other hosts of the etcd group. -/
  others : List String
  k8sCluster : List String
  /-- The hosts of `calico_rr`; empty if there is no such group. -/
  calicoRr : List String := []

namespace CertInventory

variable (inv : CertInventory)

/-- The etcd group. -/
def etcd : List String := inv.first :: inv.others

/-- The hosts of `k8s_cluster` and `calico_rr`. -/
def nodes : List String := (inv.k8sCluster ++ inv.calicoRr).eraseDups

/-- The member and the admin certificate of an etcd host. -/
def masterCerts (h : String) : List CertName := [⟨.member, h⟩, ⟨.admin, h⟩]

/-- The certificates that the inventory calls for. -/
def certs : List CertName :=
  inv.etcd.flatMap masterCerts ++ inv.nodes.map fun h => ⟨.node, h⟩

/-- `expected_files`. -/
def expectedFiles : List String := "ca.pem" :: inv.certs.flatMap CertName.files

end CertInventory

/-! ## `check_certs.yml` -/

/-- The patterns of `Register certs that have already been generated on first etcd node`. -/
def isRegistered (file : String) : Bool :=
  file == "ca.pem" ||
    ["node", "member", "admin"].any (Py.startsWith file) && Py.endsWith file ".pem"

/-- `etcdcert_master`: the files found on the first etcd host. Their contents stand for their
checksums. -/
def etcdcertMaster (dir : CertDir) : CertDir :=
  fun file => if isRegistered file then dir file else none

section
variable (force : Bool) (inv : CertInventory) (master : CertDir)

/-- `gen_certs`. -/
def genCerts : Bool := inv.expectedFiles.any fun file => force || (master file).isNone

/-- All files of the certificates exist. -/
def exist (cs : List CertName) : Bool :=
  (cs.flatMap CertName.files).all fun file => (master file).isSome

/-- The host's item of `gen_master_certs`. -/
def genMasterCerts (h : String) : Bool := force || !exist master (CertInventory.masterCerts h)

/-- The host's item of `gen_node_certs`. -/
def genNodeCerts (h : String) : Bool := force || !exist master [⟨.node, h⟩]

/-- A file is missing on the host or differs from that of the first etcd host. -/
def outdated (dir : CertDir) (files : List String) : Bool :=
  files.any fun file => (dir file).isNone || dir file != master file

/-- `etcd_member_requires_sync` or `kubernetes_host_requires_sync` is set on the host. -/
def requiresSync (h : String) (dir : CertDir) : Bool :=
  decide (h ∈ inv.etcd) &&
      outdated master dir ("ca.pem" :: (CertInventory.masterCerts h).flatMap CertName.files) ||
    decide (h ∈ inv.nodes ∧ h ∉ inv.etcd) &&
      outdated master dir ("ca.pem" :: (⟨.node, h⟩ : CertName).files)

/-- `sync_certs`, where `required` says that one of these facts is set on the host. -/
def syncCerts (h : String) (required : Bool) : Bool :=
  required || decide (h ∈ inv.etcd) && genMasterCerts force master h ||
    decide (h ∈ inv.nodes) && genNodeCerts force master h

/-- The certificates that the script is to make: for the hosts of `MASTERS` and of `HOSTS`. -/
def requested : List CertName :=
  (inv.etcd.filter (genMasterCerts force master)).flatMap CertInventory.masterCerts ++
    (inv.nodes.filter (genNodeCerts force master)).map fun h => ⟨.node, h⟩

end

/-! ## `make-ssl-etcd.sh` -/

/-- What a run of the script draws at random. -/
structure Draw where
  /-- The key of a new authority. -/
  ca : CA
  /-- The serial number of the key or the certificate in a file. -/
  serial : String → Nat

/-- The `.pem` files of a temporary directory, the last written first. -/
abbrev Files := List (String × Content)

/-- The authority that signs with `ca.pem` and `ca-key.pem`, if they belong together. -/
def signer (tmp : Files) : Option CA :=
  match tmp.lookup "ca.pem", tmp.lookup "ca-key.pem" with
  | some (.caCert ca), some (.caKey ca') => if ca = ca' then some ca else none
  | _, _ => none

/-- The files of a certificate made by an authority. -/
def issued (draw : Draw) (ca : CA) (c : CertName) : Files :=
  [(c.cert, .cert c.subject ca (draw.serial c.cert)), (c.key, .key (draw.serial c.key))]

/-- One round of the loops over `MASTERS` and `HOSTS` for one kind of certificate. -/
def issue (draw : Draw) (tmp : Files) (c : CertName) : Option Files :=
  (signer tmp).map fun ca => issued draw ca c ++ tmp

/-- The files of an authority. -/
def isCaFile (file : String) : Bool := file == "ca.pem" || file == "ca-key.pem"

/-- `Root CA`: the authority in the directory is used again if its key is there. `cp` fails if its
certificate is missing. -/
def rootCa (draw : Draw) (dir : CertDir) : Option Files :=
  match dir "ca-key.pem" with
  | some caKey => (dir "ca.pem").map fun caCert => [("ca.pem", caCert), ("ca-key.pem", caKey)]
  | none => some [("ca.pem", .caCert draw.ca), ("ca-key.pem", .caKey draw.ca)]

/-- `Install certs`: the files are moved to the directory, without those of an authority that it
has. `mv` fails if there is none. -/
def install (tmp : Files) (dir : CertDir) : Option CertDir :=
  let tmp := if (dir "ca-key.pem").isSome then tmp.filter (fun p => !isCaFile p.1) else tmp
  if tmp.isEmpty then none else some fun file => (tmp.lookup file).or (dir file)

/-- The script for the requested certificates. With `errexit` it fails if one of its commands
does. -/
def makeSslEtcd (draw : Draw) (cs : List CertName) (dir : CertDir) : Option CertDir := do
  let tmp ← rootCa draw dir
  let tmp ← cs.foldlM (issue draw) tmp
  install tmp dir

/-! ## `gen_certs_script.yml` -/

/-- The files are read on the first etcd host and written to the host; a missing file fails. -/
def copyFiles (files : List String) (src dst : CertDir) : Option CertDir :=
  if files.all fun file => (src file).isSome then
    some fun file => if file ∈ files then src file else dst file
  else none

/-- Copies under the condition of their tasks. -/
def copyIf (p : Prop) [Decidable p] (files : List String) (src dst : CertDir) : Option CertDir :=
  if p then copyFiles files src dst else some dst

/-- The copies to a host from the directory `src` of the first etcd host; on nodes `sync_certs` is
set in any case. -/
def distribute (inv : CertInventory) (src : CertDir) (h : String) (sync : Bool) (dir : CertDir) :
    Option CertDir := do
  let dir ← copyIf (h ∈ inv.etcd ∧ sync ∧ h ≠ inv.first) ("ca.pem" :: "ca-key.pem" ::
    (inv.etcd.flatMap CertInventory.masterCerts).flatMap CertName.files) src dir
  let dir ← copyIf (h ∈ inv.etcd ∧ h ≠ inv.first)
    (inv.nodes.flatMap fun k => (⟨.node, k⟩ : CertName).files) src dir
  copyIf (h ∈ inv.nodes ∧ h ∉ inv.etcd) ("ca.pem" :: (⟨.node, h⟩ : CertName).files) src dir

/-- The copies to the hosts of a play, where `sync` says on which of them `sync_certs` is set. -/
def distributeAll (inv : CertInventory) (src : CertDir) (sync : String → Bool) (play : List String)
    (dirs : String → CertDir) : Option (String → CertDir) :=
  play.foldlM (fun dirs h =>
    (distribute inv src h (sync h) (dirs h)).map (Function.update dirs h)) dirs

/-! ## A play -/

/-- The state of the hosts between two plays. -/
structure CertState where
  dirs : String → CertDir
  /-- The hosts on which `etcd_member_requires_sync` or `kubernetes_host_requires_sync` is set. -/
  required : String → Bool
  /-- The script and its configuration are on the first etcd host. -/
  script : Bool

section
variable (force : Bool) (inv : CertInventory)

/-- `Run cert generation script`, with what it leaves in the directory of the first etcd host. -/
def runScript (draw : Draw) (script : Bool) (dir : CertDir) : Option CertDir :=
  let master := etcdcertMaster dir
  if genCerts force inv master then
    if script then makeSslEtcd draw (requested force inv master) dir else none
  else some dir

/-- `check_certs.yml` and `gen_certs_script.yml` on the hosts of a play. Tasks with `run_once` take
their condition from its first host. -/
def certPlay (draw : Draw) (play : List String) (s : CertState) : Option CertState := do
  let master := etcdcertMaster (s.dirs inv.first)
  let required := fun h => s.required h || decide (h ∈ play) && requiresSync inv master h (s.dirs h)
  let script := s.script || genCerts force inv master && play.head? == some inv.first
  let first ← runScript force inv draw script (s.dirs inv.first)
  let sync := fun h => syncCerts force inv master h (required h)
  let dirs ← distributeAll inv first sync play (Function.update s.dirs inv.first first)
  return { dirs, required, script }

end

/-! ## What the script makes -/

/-- The files of the certificates made by an authority, the last made first. -/
def made (draw : Draw) (ca : CA) (cs : List CertName) : Files := cs.reverse.flatMap (issued draw ca)

/-- The directory with the authority that the script uses: a new one if there is no key. -/
def caDir (draw : Draw) (dir : CertDir) : CertDir := fun file =>
  if (dir "ca-key.pem").isSome then dir file
  else if file = "ca.pem" then some (.caCert draw.ca)
  else if file = "ca-key.pem" then some (.caKey draw.ca)
  else dir file

section
variable {draw : Draw} {ca : CA} {c : CertName} {cs : List CertName} {dir : CertDir}
  {tmp : Files} {file : String}

/-- A certificate is not a file of an authority. -/
theorem isCaFile_of_mem_files (h : file ∈ c.files) : isCaFile file = false := by
  have hhead : ∀ rest : String, isCaFile (c.kind.word ++ "-" ++ rest) = false := by
    intro rest
    rw [isCaFile, Bool.or_eq_false_iff, beq_eq_false_iff_ne, beq_eq_false_iff_ne]
    cases c.kind <;> constructor <;> intro heq <;>
      simpa [CertKind.word] using congrArg String.toList heq
  rw [CertName.files, List.mem_cons, List.mem_singleton] at h
  rcases h with rfl | rfl
  · rw [CertName.cert, String.append_assoc]
    exact hhead _
  · rw [CertName.key, String.append_assoc]
    exact hhead _

theorem ne_of_not_isCaFile (h : isCaFile file = false) : file ≠ "ca.pem" ∧ file ≠ "ca-key.pem" := by
  rwa [isCaFile, Bool.or_eq_false_iff, beq_eq_false_iff_ne, beq_eq_false_iff_ne] at h

/-- No certificate has a file of an authority. -/
theorem not_mem_files_of_isCaFile (h : isCaFile file = true) :
    file ∉ cs.flatMap CertName.files := by
  intro hmem
  obtain ⟨c, -, hc⟩ := List.mem_flatMap.1 hmem
  rw [isCaFile_of_mem_files hc] at h
  cases h

/-- What has been made is there, in the files of the certificates. -/
theorem made_isSome : ((made draw ca cs).lookup file).isSome ↔
    file ∈ cs.flatMap CertName.files := by
  have hfiles : (made draw ca cs).map Prod.fst = cs.reverse.flatMap CertName.files := by
    rw [made, List.map_flatMap]
    rfl
  have hmem : ((made draw ca cs).lookup file).isSome ↔ file ∈ (made draw ca cs).map Prod.fst := by
    rw [List.lookup_isSome_iff, List.mem_map]
    exact exists_congr fun p => and_congr_right' (beq_iff_eq.trans eq_comm)
  rw [hmem, hfiles, List.mem_flatMap, List.mem_flatMap]
  simp only [List.mem_reverse]

theorem made_eq_none : (made draw ca cs).lookup file = none ↔ file ∉ cs.flatMap CertName.files := by
  have hsome : ((made draw ca cs).lookup file).isSome ↔
      file ∈ cs.flatMap CertName.files := made_isSome
  rw [← not_iff_not, not_not, ← hsome, Option.isSome_iff_ne_none]

/-- What is made is a key or a certificate of the authority, with the serial number drawn for the
file. -/
theorem made_eq_some {content : Content} (h : (made draw ca cs).lookup file = some content) :
    (∃ subject, content = .cert subject ca (draw.serial file)) ∨
      content = .key (draw.serial file) := by
  obtain ⟨_, _, heq, -⟩ := List.lookup_eq_some_iff.1 h
  have hmem : (file, content) ∈ made draw ca cs := by
    rw [heq]
    exact List.mem_append_right _ List.mem_cons_self
  obtain ⟨c, -, hc⟩ := List.mem_flatMap.1 hmem
  simp only [issued, List.mem_cons, List.not_mem_nil, or_false, Prod.mk.injEq] at hc
  rcases hc with ⟨rfl, rfl⟩ | ⟨rfl, rfl⟩
  · exact .inl ⟨_, rfl⟩
  · exact .inr rfl

/-- The authority signs all certificates that are made. -/
theorem signed_of_made {subject : String} {ca' : CA} {serial : Nat}
    (h : (made draw ca cs).lookup file = some (.cert subject ca' serial)) : ca' = ca := by
  rcases made_eq_some h with ⟨_, heq⟩ | heq
  · cases heq
    rfl
  · cases heq

/-- A certificate does not replace the files of the authority. -/
theorem made_of_isCaFile (h : isCaFile file = true) : (made draw ca cs).lookup file = none := by
  rw [made_eq_none]
  exact not_mem_files_of_isCaFile h

theorem lookup_made_append (h : isCaFile file = true) :
    (made draw ca cs ++ tmp).lookup file = tmp.lookup file := by
  rw [List.lookup_append, made_of_isCaFile h, Option.none_or]

theorem signer_made_append : signer (made draw ca cs ++ tmp) = signer tmp := by
  rw [signer, lookup_made_append rfl, lookup_made_append rfl, ← signer]

/-- With an authority in the temporary directory the loops make all certificates. -/
theorem foldlM_issue (h : signer tmp = some ca) :
    cs.foldlM (issue draw) tmp = some (made draw ca cs ++ tmp) := by
  induction cs using List.reverseRecOn with
  | nil => rfl
  | append_singleton cs c ih =>
    have hissue : issue draw (made draw ca cs ++ tmp) c =
        some (issued draw ca c ++ (made draw ca cs ++ tmp)) := by
      rw [issue, signer_made_append, h, Option.map_some]
    rw [List.foldlM_append, ih, Option.bind_eq_bind, Option.bind_some, List.foldlM_cons, hissue]
    simp [made]

/-- The files of an authority. -/
def caFiles (ca : CA) : Files := [("ca.pem", .caCert ca), ("ca-key.pem", .caKey ca)]

theorem rootCa_of_signer (hcert : caDir draw dir "ca.pem" = some (.caCert ca))
    (hkey : caDir draw dir "ca-key.pem" = some (.caKey ca)) :
    rootCa draw dir = some (caFiles ca) := by
  rw [rootCa]
  cases hk : dir "ca-key.pem" with
  | some caKey =>
    simp only [caDir, hk, Option.isSome_some, if_true] at hcert hkey
    cases hkey
    rw [hcert]
    rfl
  | none =>
    simp only [caDir, hk, Option.isSome_none, Bool.false_eq_true, if_false, if_true] at hcert
    cases hcert
    rfl

/-- The certificates that were made are installed, and the authority if it is new. -/
theorem install_made (hcert : caDir draw dir "ca.pem" = some (.caCert ca))
    (hkey : caDir draw dir "ca-key.pem" = some (.caKey ca))
    (hne : cs ≠ [] ∨ dir "ca-key.pem" = none) :
    install (made draw ca cs ++ caFiles ca) dir =
      some fun file => ((made draw ca cs).lookup file).or (caDir draw dir file) := by
  rw [install]
  cases hk : dir "ca-key.pem" with
  | some caKey =>
    have hfilter : (made draw ca cs ++ caFiles ca).filter (fun p => !isCaFile p.1) =
        made draw ca cs := by
      rw [List.filter_append, List.filter_eq_self.2 fun p hp => ?_]
      · exact List.append_nil _
      · obtain ⟨c, -, hc⟩ := List.mem_flatMap.1 hp
        have hfile : p.1 ∈ c.files := by
          simp only [issued, List.mem_cons, List.not_mem_nil, or_false] at hc
          rcases hc with rfl | rfl <;> simp [CertName.files]
        simp [isCaFile_of_mem_files hfile]
    have hmade : made draw ca cs ≠ [] := by
      obtain ⟨c, hc⟩ := List.exists_mem_of_ne_nil cs (hne.resolve_right (by simp [hk]))
      simp only [made, issued, ne_eq, List.flatMap_eq_nil_iff, List.mem_reverse]
      exact fun hnil => List.cons_ne_nil _ _ (hnil c hc)
    rw [Option.isSome_some, if_pos rfl, hfilter, if_neg (by simpa using hmade)]
    simp [caDir, hk]
  | none =>
    simp only [caDir, hk, Option.isSome_none, Bool.false_eq_true, if_false, if_true] at hcert
    cases hcert
    have hcons : (made draw draw.ca cs ++ caFiles draw.ca).isEmpty = false := by simp [caFiles]
    rw [Option.isSome_none, if_neg Bool.false_ne_true]
    simp only [hcons, Bool.false_eq_true, if_false, Option.some.injEq]
    funext file
    rw [List.lookup_append, Option.or_assoc]
    refine congrArg _ ?_
    by_cases hpem : file = "ca.pem"
    · subst hpem
      simp [caFiles, caDir, hk]
    · by_cases hkeypem : file = "ca-key.pem"
      · subst hkeypem
        simp [caFiles, caDir, hk, List.lookup_cons]
      · have hnone : (caFiles draw.ca).lookup file = none := by
          simp [caFiles, List.lookup_eq_none_iff, hpem, hkeypem]
        simp [hnone, caDir, hk, hpem, hkeypem]

/-- The script with an authority: it makes the certificates, and keeps the other files. -/
theorem makeSslEtcd_of_signer (hcert : caDir draw dir "ca.pem" = some (.caCert ca))
    (hkey : caDir draw dir "ca-key.pem" = some (.caKey ca))
    (hne : cs ≠ [] ∨ dir "ca-key.pem" = none) :
    makeSslEtcd draw cs dir =
      some fun file => ((made draw ca cs).lookup file).or (caDir draw dir file) := by
  have hsigner : signer (caFiles ca) = some ca := if_pos rfl
  rw [makeSslEtcd, rootCa_of_signer hcert hkey, Option.bind_eq_bind, Option.bind_some,
    foldlM_issue hsigner, Option.bind_some]
  exact install_made hcert hkey hne

end

end Kubespray
