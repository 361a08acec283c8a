import Kubespray.Etcd.Certificates
import Kubespray.Etcd.Recovery
import Kubespray.Etcd.RemoveMember

/-!
# The removal of broken etcd hosts

`roles/recover_control_plane/etcd` where the quorum is intact: on the first etcd host the files of
`*name*` are deleted for every host of `broken_etcd`, and the members are removed whose line of
`etcdctl member list` has a broken host's `etcd_member_name` in its third field. The pattern selects
every file in whose name the host's name stands, so the files of `node10` go with those of `node1`.
`recover_broken_iff` says when only broken hosts are touched.
-/

namespace Kubespray

/-! ## The tasks -/

/-- A host of `broken_etcd`. -/
structure BrokenHost where
  name : String
  /-- `etcd_member_name`. -/
  memberName : String
  deriving DecidableEq, Repr

/-- What the recovery changes: the file names in `etcd_cert_dir` of the first etcd host, and the
membership. -/
structure RecoverState where
  files : List String
  members : Membership

/-- `Set healthy fact`: the test `match` on the beginning of stderr. -/
def unhealthyCluster (health : EndpointHealth) : Bool :=
  Py.startsWith (health.stderrLines.head?.getD "") "Error: unhealthy cluster"

/-- `Delete old certificates`. A pattern that selects nothing is not an error for the play. -/
def deleteOldCertificates (broken : List BrokenHost) (files : List String) : List String :=
  broken.foldl
    (fun files item => files.filter fun file => ¬ item.name.toList <:+: file.toList) files

/-- `replace(' ','')`. -/
def removeBlanks (s : String) : String := String.ofList (s.toList.filter (· ≠ ' '))

/-- `item[1].replace(' ','').split(',')[n]`. -/
def lineField (n : Nat) (line : String) : String :=
  ((Py.split ',' (removeBlanks line))[n]?).getD ""

/-- The items of `with_nested`. -/
def nestedItems (broken : List BrokenHost) (lines : List String) : List (BrokenHost × String) :=
  broken.flatMap fun h => lines.map fun line => (h, line)

/-- `Remove broken cluster members`. -/
def removeBrokenMembers (broken : List BrokenHost) (lines : List String) (ms : Membership) :
    Membership :=
  (nestedItems broken lines).foldl (fun ms item =>
    if item.1.memberName = lineField 2 item.2 then ms.remove (lineField 0 item.2) else ms) ms

/-- The files that `etcdctl` on this host needs. -/
def clientFiles (host : String) : List String :=
  ["ca.pem", (CertName.mk .admin host).cert, (CertName.mk .admin host).key]

/-- The role on the first etcd host, with what it leaves; `recoverLostQuorum` is
`recover_lost_quorum.yml`. -/
def recoverEtcd (recoverLostQuorum : RecoverState → RecoverState) (first : String)
    (broken : List BrokenHost) (health : EndpointHealth) (s : RecoverState) :
    Except TaskFailure Unit × RecoverState :=
  if broken = [] then (.ok (), s)
  else
    let s := if hasQuorum health then s else recoverLostQuorum s
    let files := deleteOldCertificates broken s.files
    if unhealthyCluster health ∨ hasQuorum health = false then (.ok (), ⟨files, s.members⟩)
    else if ∀ file ∈ clientFiles first, file ∈ files then
      (.ok (), ⟨files, removeBrokenMembers broken s.members.memberList s.members⟩)
    else (.error .command, ⟨files, s.members⟩)

/-! ## The directory and the members -/

/-- A file of a certificate: itself or its key. -/
structure CertFile where
  cert : CertName
  isKey : Bool
  deriving DecidableEq, Repr

def CertFile.name (f : CertFile) : String := if f.isKey then f.cert.key else f.cert.cert

/-- A directory with the files of the CA and these. -/
def certDirFiles (certs : List CertFile) : List String :=
  "ca.pem" :: "ca-key.pem" :: certs.map CertFile.name

/-- The name of a member, which it has once it was started. -/
def Member.shownName (m : Member) : String := if m.started then m.name else ""

/-- The files of the hosts of `broken_etcd` and their members are gone, and nothing else is. -/
def OnlyBrokenGone (broken : List BrokenHost) (certs : List CertFile) (ms : Membership)
    (s : RecoverState) : Prop :=
  ((∀ f ∈ certs, f.name ∈ s.files ↔ f.cert.host ∉ broken.map BrokenHost.name) ∧
    "ca.pem" ∈ s.files ∧ "ca-key.pem" ∈ s.files) ∧
  s.members.members = ms.members.filter fun m => m.shownName ∉ broken.map BrokenHost.memberName

/-- The name of a broken host stands neither in the names of the files of the CA nor in those of the
files of other hosts. -/
def FilesApart (broken : List BrokenHost) (certs : List CertFile) : Prop :=
  ∀ h ∈ broken, (¬ h.name.toList <:+: "ca.pem".toList ∧ ¬ h.name.toList <:+: "ca-key.pem".toList) ∧
    ∀ f ∈ certs, h.name.toList <:+: f.name.toList → f.cert.host ∈ broken.map BrokenHost.name

/-- The host has the files that `etcdctl` needs, and no broken host's name stands in their names. -/
def KeepsClient (host : String) (broken : List BrokenHost) (files : List String) : Prop :=
  ∀ file ∈ clientFiles host, file ∈ files ∧ ∀ h ∈ broken, ¬ h.name.toList <:+: file.toList

/-- The third field of a member's line tells whether it is a broken host's, as long as the first
host can ask for the members. -/
def MembersApart (client : Prop) (broken : List BrokenHost) (ms : Membership) : Prop :=
  ∀ m ∈ ms.members,
    (client ∧ cutFirst (removeBlanks m.shownName) ∈ broken.map BrokenHost.memberName ↔
      m.shownName ∈ broken.map BrokenHost.memberName)

/-! ## The fields of a line -/

section
variable {m : Member}

theorem removeBlanks_append (s t : String) :
    removeBlanks (s ++ t) = removeBlanks s ++ removeBlanks t := by
  simp [removeBlanks]

/-- The first field of a text does not depend on what follows a separator. -/
theorem cutFirst_append (s t : String) : cutFirst (s ++ "," ++ t) = cutFirst s := by
  by_cases hs : ',' ∈ s.toList
  · obtain ⟨first, rest, rfl, hfirst⟩ := Py.exists_eq_append_of_mem hs
    have hassoc : first ++ String.singleton ',' ++ rest ++ "," ++ t =
        first ++ String.singleton ',' ++ (rest ++ "," ++ t) := by
      simp only [String.append_assoc]
    rw [hassoc, cutFirst, cutFirst, Py.split_append hfirst, Py.split_append hfirst]
    rfl
  · have hcut : s ++ "," ++ t = s ++ String.singleton ',' ++ t := rfl
    rw [hcut, cutFirst, cutFirst, Py.split_append hs, Py.split_of_not_mem hs]
    rfl

/-- A member's line without blanks: its id, its status and its name stand in front. -/
theorem removeBlanks_line (m : Member) : ∃ status rest, ',' ∉ status.toList ∧
    removeBlanks m.line = removeBlanks m.id ++ String.singleton ',' ++
      (status ++ String.singleton ',' ++ (removeBlanks m.shownName ++ "," ++ rest)) := by
  rw [Member.line, Member.shownName]
  split
  · refine ⟨"started", removeBlanks (peerUrl m.address ++ ", " ++ clientUrl m.address),
      by decide, ?_⟩
    have hstatus : removeBlanks " started, " = "started" ++ String.singleton ',' := by decide
    have hsep : removeBlanks ", " = "," := by decide
    have hcomma : removeBlanks "," = String.singleton ',' := by decide
    simp only [removeBlanks_append, hstatus, hsep, hcomma, String.append_assoc]
  · refine ⟨"unstarted", removeBlanks (peerUrl m.address ++ ", "), by decide, ?_⟩
    have hstatus : removeBlanks " unstarted, , " = "unstarted" ++ String.singleton ',' ++ "," := by
      decide
    have hcomma : removeBlanks "," = String.singleton ',' := by decide
    have hempty : removeBlanks "" = "" := by decide
    simp only [removeBlanks_append, hstatus, hcomma, hempty, String.append_assoc,
      String.empty_append]

theorem lineField_line (m : Member) : lineField 0 m.line = removeBlanks m.id ∧
    lineField 2 m.line = cutFirst (removeBlanks m.shownName) := by
  obtain ⟨status, rest, hstatus, hline⟩ := removeBlanks_line m
  have hid : ',' ∉ (removeBlanks m.id).toList := by
    simp [removeBlanks, m.id_plain]
  have hname := cutFirst_append (removeBlanks m.shownName) rest
  rw [cutFirst, List.head?_eq_getElem?] at hname
  rw [lineField, lineField, hline, Py.split_append hid, Py.split_append hstatus,
    List.getElem?_cons_zero, List.getElem?_cons_succ, List.getElem?_cons_succ, hname]
  exact ⟨rfl, rfl⟩

/-- The id in a member's line. -/
theorem lineField_zero (h : ' ' ∉ m.id.toList) : lineField 0 m.line = m.id := by
  have hfilter : m.id.toList.filter (· ≠ ' ') = m.id.toList := by
    refine List.filter_eq_self.2 fun c hc => ?_
    rw [decide_eq_true_iff]
    rintro rfl
    exact h hc
  rw [(lineField_line m).1, removeBlanks, hfilter, String.ofList_toList]

end

/-! ## What the tasks leave -/

section
variable {broken : List BrokenHost} {certs : List CertFile} {ms : Membership} {host : String}

/-- The files in whose names no broken host's name stands are left. -/
theorem mem_deleteOldCertificates {files : List String} {file : String} :
    file ∈ deleteOldCertificates broken files ↔
      file ∈ files ∧ ∀ h ∈ broken, ¬ h.name.toList <:+: file.toList := by
  induction broken generalizing files with
  | nil => simp [deleteOldCertificates]
  | cons h broken ih =>
    rw [deleteOldCertificates, List.foldl_cons, ← deleteOldCertificates, ih, List.mem_filter,
      decide_eq_true_iff, List.forall_mem_cons, and_assoc]

/-- The host's name stands in the names of its files. -/
theorem host_infix_name (f : CertFile) : f.cert.host.toList <:+: f.name.toList := by
  unfold CertFile.name
  split
  · exact ⟨(f.cert.kind.word ++ "-").toList, "-key.pem".toList, by simp [CertName.key]⟩
  · exact ⟨(f.cert.kind.word ++ "-").toList, ".pem".toList, by simp [CertName.cert]⟩

/-- Exactly the files of broken hosts are deleted iff their names stand in no others. -/
theorem deleteOldCertificates_iff :
    ((∀ f ∈ certs, f.name ∈ deleteOldCertificates broken (certDirFiles certs) ↔
        f.cert.host ∉ broken.map BrokenHost.name) ∧
      "ca.pem" ∈ deleteOldCertificates broken (certDirFiles certs) ∧
      "ca-key.pem" ∈ deleteOldCertificates broken (certDirFiles certs)) ↔
    FilesApart broken certs := by
  have hca : "ca.pem" ∈ certDirFiles certs := List.mem_cons_self
  have hkey : "ca-key.pem" ∈ certDirFiles certs := List.mem_cons_of_mem _ List.mem_cons_self
  have hcert : ∀ f ∈ certs, f.name ∈ certDirFiles certs := fun f hf =>
    List.mem_cons_of_mem _ (List.mem_cons_of_mem _ (List.mem_map_of_mem hf))
  simp only [mem_deleteOldCertificates, hca, hkey, true_and]
  constructor
  · rintro ⟨hfiles, hca, hkey⟩ h hh
    refine ⟨⟨hca h hh, hkey h hh⟩, fun f hf hin => ?_⟩
    by_contra hother
    exact ((hfiles f hf).2 hother).2 h hh hin
  · intro hapart
    refine ⟨fun f hf => ⟨fun hkept hbroken => ?_, fun hother => ⟨hcert f hf, fun h hh hin => ?_⟩⟩,
      fun h hh => (hapart h hh).1.1, fun h hh => (hapart h hh).1.2⟩
    · obtain ⟨h, hh, hname⟩ := List.mem_map.1 hbroken
      exact hkept.2 h hh (hname ▸ host_infix_name f)
    · exact hother ((hapart h hh).2 f hf hin)

/-- A loop that removes members leaves those that no item asks to remove. -/
theorem members_foldl_remove {α : Type} {p : α → Prop} [DecidablePred p] {id : α → String}
    (items : List α) (ms : Membership) :
    (items.foldl (fun ms item => if p item then ms.remove (id item) else ms) ms).members =
      ms.members.filter fun m => ∀ item ∈ items, p item → m.id ≠ id item := by
  induction items generalizing ms with
  | nil => simp
  | cons item items ih =>
    rw [List.foldl_cons, ih]
    by_cases hp : p item
    · rw [if_pos hp, Membership.remove, List.filter_filter]
      refine List.filter_congr fun m _ => ?_
      simp [hp, Bool.and_comm]
    · simp [hp]

/-- The members are left whose third field is not a broken host's. -/
theorem members_removeBrokenMembers (hids : ∀ m ∈ ms.members, ' ' ∉ m.id.toList) :
    (removeBrokenMembers broken ms.memberList ms).members =
      ms.members.filter fun m =>
        cutFirst (removeBlanks m.shownName) ∉ broken.map BrokenHost.memberName := by
  rw [removeBrokenMembers, members_foldl_remove]
  refine List.filter_congr fun m hm => decide_eq_decide.2 ?_
  rw [List.mem_map]
  constructor
  · rintro hstays ⟨h, hh, hname⟩
    have hitem : (h, m.line) ∈ nestedItems broken ms.memberList :=
      List.mem_flatMap.2 ⟨h, hh, List.mem_map_of_mem (List.mem_map_of_mem hm)⟩
    exact hstays _ hitem (hname.trans (lineField_line m).2.symm) (lineField_zero (hids m hm)).symm
  · rintro hnone ⟨h, line⟩ hitem hfield hid
    obtain ⟨h', hh, hline⟩ := List.mem_flatMap.1 hitem
    obtain ⟨line', hline', hpair⟩ := List.mem_map.1 hline
    cases hpair
    obtain ⟨m', hm', rfl⟩ := List.mem_map.1 hline'
    -- members of one id are one
    rw [lineField_zero (hids m' hm')] at hid
    obtain rfl := Membership.eq_of_id hm hm' hid
    exact hnone ⟨h, hh, hfield.trans (lineField_line m).2⟩

end

/-- With a quorum, the recovery deletes the files of the broken hosts and removes their members, and
leaves everything else, iff the names of broken hosts stand in no other file names, and the first
host still has its client files and can tell the members by the third field of their lines. -/
theorem recover_broken_iff (recoverLostQuorum : RecoverState → RecoverState) (first : String)
    (broken : List BrokenHost) (health : EndpointHealth) (certs : List CertFile) (ms : Membership)
    (hbroken : broken ≠ []) (hquorum : hasQuorum health = true)
    (hhealth : unhealthyCluster health = false) (hids : ∀ m ∈ ms.members, ' ' ∉ m.id.toList) :
    OnlyBrokenGone broken certs ms
        (recoverEtcd recoverLostQuorum first broken health ⟨certDirFiles certs, ms⟩).2 ↔
      FilesApart broken certs ∧
        MembersApart (KeepsClient first broken (certDirFiles certs)) broken ms := by
  have hrun : recoverEtcd recoverLostQuorum first broken health ⟨certDirFiles certs, ms⟩ =
      let files := deleteOldCertificates broken (certDirFiles certs)
      if ∀ file ∈ clientFiles first, file ∈ files then
        (.ok (), ⟨files, removeBrokenMembers broken ms.memberList ms⟩)
      else (.error .command, ⟨files, ms⟩) := by
    simp only [recoverEtcd, if_neg hbroken, hquorum, hhealth, if_true, Bool.false_eq_true,
      Bool.true_eq_false, or_self, if_false]
  have hclient : (∀ file ∈ clientFiles first,
      file ∈ deleteOldCertificates broken (certDirFiles certs)) ↔
        KeepsClient first broken (certDirFiles certs) := by
    simp only [mem_deleteOldCertificates, KeepsClient]
  by_cases hkeeps : KeepsClient first broken (certDirFiles certs)
  · have hmembers : (removeBrokenMembers broken ms.memberList ms).members =
        ms.members.filter (fun m => m.shownName ∉ broken.map BrokenHost.memberName) ↔
          MembersApart (KeepsClient first broken (certDirFiles certs)) broken ms := by
      rw [members_removeBrokenMembers hids, Unique.filter_eq_filter_iff]
      simp only [MembersApart, hkeeps, true_and, decide_eq_decide, not_iff_not]
    rw [hrun, if_pos (hclient.2 hkeeps), OnlyBrokenGone, deleteOldCertificates_iff, hmembers]
  · have hmembers : ms.members =
        ms.members.filter (fun m => m.shownName ∉ broken.map BrokenHost.memberName) ↔
          MembersApart (KeepsClient first broken (certDirFiles certs)) broken ms := by
      rw [eq_comm, List.filter_eq_self]
      simp only [MembersApart, hkeeps, false_and, false_iff, decide_eq_true_iff]
    rw [hrun, if_neg (mt hclient.1 hkeeps), OnlyBrokenGone, deleteOldCertificates_iff, hmembers]

/-- A directory with all files of the certificates of these etcd hosts. -/
def exampleCerts (hosts : List String) : List CertFile :=
  (hosts.flatMap CertInventory.masterCerts).flatMap fun c => [⟨c, false⟩, ⟨c, true⟩]

/-- The host with the member etcd3 is removed. -/
theorem recover_broken_node3 :
    let s := (recoverEtcd id "node1" [⟨"node3", "etcd3"⟩] ⟨["is healthy"], []⟩
      ⟨certDirFiles (exampleCerts ["node1", "node2", "node3"]), exampleMembership⟩).2
    s.files.length = 10 ∧
      OnlyBrokenGone [⟨"node3", "etcd3"⟩] (exampleCerts ["node1", "node2", "node3"])
        exampleMembership s := by
  refine ⟨by decide +kernel, ?_⟩
  refine (recover_broken_iff id "node1" [⟨"node3", "etcd3"⟩] _ _ _ (by decide) (by decide +kernel)
    (by decide +kernel) (by decide +kernel)).2 ⟨?_, ?_⟩
  · unfold FilesApart
    decide +kernel
  · unfold MembersApart KeepsClient
    decide +kernel

/-- The files of the host node10 are deleted with those of node1. -/
theorem recover_broken_fails :
    ¬ ∀ (first : String) (broken : List BrokenHost) (health : EndpointHealth)
      (certs : List CertFile) (ms : Membership), broken ≠ [] → first ∉ broken.map BrokenHost.name →
      hasQuorum health = true → unhealthyCluster health = false →
      ∀ f ∈ certs, f.cert.host ∉ broken.map BrokenHost.name →
        f.name ∈ (recoverEtcd id first broken health ⟨certDirFiles certs, ms⟩).2.files := by
  intro h
  have hkept := h "node2" [⟨"node1", "etcd1"⟩] ⟨["is healthy"], []⟩
    (exampleCerts ["node1", "node2", "node10"]) exampleMembership (by decide) (by decide)
    (by decide +kernel) (by decide +kernel) ⟨⟨.member, "node10"⟩, false⟩ (by decide +kernel)
    (by decide)
  revert hkept
  decide +kernel

end Kubespray
