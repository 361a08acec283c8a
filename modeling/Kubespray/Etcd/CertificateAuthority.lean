import Kubespray.Etcd.Certificates

/-!
# One authority for all certificates

The script reuses the authority of the directory if `ca-key.pem` is there and makes a new one if it
is not, while `check_certs.yml` decides by the other files which certificates are made again.
`one_ca` says when the certificates of the inventory's hosts are signed by the `ca.pem` that the
first etcd host then has; `one_ca_fails` loses the key of the authority together with one node's
certificate. -/

namespace Kubespray

/-- The directory has no authority but `ca`: its files, as far as they are there, are those of `ca`,
and its certificates are signed by it. -/
structure OneCa (ca : CA) (dir : CertDir) : Prop where
  caCert : ∀ c, dir "ca.pem" = some c → c = .caCert ca
  caKey : ∀ c, dir "ca-key.pem" = some c → c = .caKey ca
  signed : ∀ file subject ca' serial, dir file = some (.cert subject ca' serial) → ca' = ca

/-- The certificates of all kinds that the hosts of the inventory can have. -/
def CertInventory.certFiles (inv : CertInventory) : List String :=
  [CertKind.member, .admin, .node].flatMap fun kind =>
    (inv.etcd ++ inv.nodes).map fun h => (⟨kind, h⟩ : CertName).cert

/-- Every expected file exists, and every certificate of a host of the inventory is signed by the
authority of `ca.pem`. -/
def CertsValid (inv : CertInventory) (dir : CertDir) : Prop :=
  (∀ file ∈ inv.expectedFiles, (dir file).isSome) ∧
    ∀ file ∈ inv.certFiles, ∀ subject ca serial, dir file = some (.cert subject ca serial) →
      dir "ca.pem" = some (.caCert ca)

section
variable {force : Bool} {inv : CertInventory} {draw : Draw} {script : Bool} {ca : CA}
  {dir dir' : CertDir} {c : CertName} {file : String}

/-! ## The checks -/

/-- The files of the certificates are among those registered on the first etcd host. -/
theorem isRegistered_of_mem_files (h : file ∈ c.files) : isRegistered file = true := by
  have hstart : ∀ rest : String,
      ["node", "member", "admin"].any (Py.startsWith (c.kind.word ++ rest)) = true := by
    intro rest
    refine List.any_eq_true.2 ⟨c.kind.word, ?_, Py.startsWith_append _ _⟩
    cases c.kind <;> simp [CertKind.word]
  rw [CertName.files, List.mem_cons, List.mem_singleton] at h
  rw [isRegistered, Bool.or_eq_true, Bool.and_eq_true]
  right
  rcases h with rfl | rfl
  · refine ⟨?_, Py.endsWith_append _ _⟩
    rw [CertName.cert, String.append_assoc, String.append_assoc]
    exact hstart _
  · have hkey : c.key = c.kind.word ++ "-" ++ c.host ++ "-key" ++ ".pem" :=
      String.toList_inj.1 (by simp [CertName.key])
    refine ⟨?_, by rw [hkey]; exact Py.endsWith_append _ _⟩
    rw [CertName.key, String.append_assoc, String.append_assoc]
    exact hstart _

/-- The expected files are registered if they exist. -/
theorem etcdcertMaster_of_expected (h : file ∈ inv.expectedFiles) :
    etcdcertMaster dir file = dir file := by
  rcases List.mem_cons.1 h with rfl | h
  · rfl
  · obtain ⟨c, -, hc⟩ := List.mem_flatMap.1 h
    exact if_pos (isRegistered_of_mem_files hc)

/-- No certificate is made iff the refresh is not forced and all expected files exist. -/
theorem genCerts_eq_false :
    genCerts force inv (etcdcertMaster dir) = false ↔
      force = false ∧ ∀ file ∈ inv.expectedFiles, (dir file).isSome := by
  rw [genCerts, List.any_eq_false]
  constructor
  · intro h
    have hnot : ∀ file ∈ inv.expectedFiles, force = false ∧ (dir file).isSome := by
      intro file hfile
      simpa [etcdcertMaster_of_expected hfile, Option.isSome_iff_ne_none] using h file hfile
    exact ⟨(hnot "ca.pem" List.mem_cons_self).1, fun file hfile => (hnot file hfile).2⟩
  · rintro ⟨hforce, hall⟩ file hfile
    simpa [etcdcertMaster_of_expected hfile, hforce, Option.isSome_iff_ne_none] using hall file
      hfile

/-- Every certificate that the inventory calls for is requested, or its files exist. -/
theorem requested_or_isSome (force : Bool) (dir : CertDir) (hc : c ∈ inv.certs) :
    c ∈ requested force inv (etcdcertMaster dir) ∨ ∀ file ∈ c.files, (dir file).isSome := by
  have hfound : ∀ cs : List CertName, c ∈ cs → exist (etcdcertMaster dir) cs = true →
      ∀ file ∈ c.files, (dir file).isSome := by
    intro cs hmem hexist file hfile
    have hsome := List.all_eq_true.1 hexist file (List.mem_flatMap.2 ⟨c, hmem, hfile⟩)
    rwa [etcdcertMaster, if_pos (isRegistered_of_mem_files hfile)] at hsome
  rcases List.mem_append.1 hc with hc | hc
  · obtain ⟨h, hh, hmem⟩ := List.mem_flatMap.1 hc
    cases hgen : genMasterCerts force (etcdcertMaster dir) h with
    | true =>
      exact .inl (List.mem_append_left _
        (List.mem_flatMap.2 ⟨h, List.mem_filter.2 ⟨hh, hgen⟩, hmem⟩))
    | false =>
      rw [genMasterCerts, Bool.or_eq_false_iff, Bool.not_eq_false'] at hgen
      exact .inr (hfound _ hmem hgen.2)
  · obtain ⟨h, hh, rfl⟩ := List.mem_map.1 hc
    cases hgen : genNodeCerts force (etcdcertMaster dir) h with
    | true =>
      exact .inl (List.mem_append_right _
        (List.mem_map.2 ⟨h, List.mem_filter.2 ⟨hh, hgen⟩, rfl⟩))
    | false =>
      rw [genNodeCerts, Bool.or_eq_false_iff, Bool.not_eq_false'] at hgen
      exact .inr (hfound _ (List.mem_singleton_self _) hgen.2)

/-! ## The run on the first etcd host -/

/-- Without a certificate to make and with an authority, the script has no file to install. -/
theorem makeSslEtcd_nil (hkey : (dir "ca-key.pem").isSome) : makeSslEtcd draw [] dir = none := by
  obtain ⟨caKey, hk⟩ := Option.isSome_iff_exists.1 hkey
  rw [makeSslEtcd, rootCa, hk]
  cases dir "ca.pem" with
  | none => rfl
  | some caCert => simp [install, hk, isCaFile]

/-- A successful run of the script: its authority is that of the directory if the key is there and a
new one else. -/
theorem makeSslEtcd_eq_some {cs : List CertName} (hca : OneCa ca dir)
    (h : makeSslEtcd draw cs dir = some dir') :
    ∃ ca', ((dir "ca-key.pem").isSome ∧ ca' = ca ∨ dir "ca-key.pem" = none ∧ ca' = draw.ca) ∧
      caDir draw dir "ca.pem" = some (.caCert ca') ∧
      dir' = fun file => ((made draw ca' cs).lookup file).or (caDir draw dir file) := by
  cases hk : dir "ca-key.pem" with
  | some caKey =>
    obtain rfl := hca.caKey _ hk
    cases hc : dir "ca.pem" with
    | none =>
      rw [makeSslEtcd, rootCa, hk] at h
      simp [hc] at h
    | some caCert =>
      obtain rfl := hca.caCert _ hc
      have hcert : caDir draw dir "ca.pem" = some (.caCert ca) := by simp [caDir, hk, hc]
      have hkey : caDir draw dir "ca-key.pem" = some (.caKey ca) := by simp [caDir, hk]
      have hne : cs ≠ [] := by
        rintro rfl
        rw [makeSslEtcd_nil (by rw [hk]; rfl)] at h
        cases h
      rw [makeSslEtcd_of_signer hcert hkey (.inl hne)] at h
      exact ⟨ca, .inl ⟨rfl, rfl⟩, hcert, (Option.some.inj h).symm⟩
  | none =>
    have hcert : caDir draw dir "ca.pem" = some (.caCert draw.ca) := by simp [caDir, hk]
    have hkey : caDir draw dir "ca-key.pem" = some (.caKey draw.ca) := by simp [caDir, hk]
    rw [makeSslEtcd_of_signer hcert hkey (.inr hk)] at h
    exact ⟨draw.ca, .inr ⟨rfl, rfl⟩, hcert, (Option.some.inj h).symm⟩

/-- On the first etcd host nothing is copied. -/
theorem distribute_first {src : CertDir} {sync : Bool} :
    distribute inv src inv.first sync dir = some dir := by
  simp [distribute, copyIf, CertInventory.etcd]

/-- The copies do not change the directory of the first etcd host. -/
theorem distributeAll_first {src : CertDir} {sync : String → Bool} {play : List String}
    {dirs dirs' : String → CertDir} (h : distributeAll inv src sync play dirs = some dirs') :
    dirs' inv.first = dirs inv.first := by
  induction play generalizing dirs with
  | nil =>
    cases h
    rfl
  | cons host play ih =>
    rw [distributeAll, List.foldlM_cons, Option.bind_eq_bind, Option.bind_eq_some_iff] at h
    obtain ⟨next, hnext, h⟩ := h
    obtain ⟨dir, hdir, rfl⟩ := Option.map_eq_some_iff.1 hnext
    rw [ih h]
    by_cases hhost : host = inv.first
    · subst hhost
      rw [distribute_first] at hdir
      rw [Function.update_self, Option.some.inj hdir]
    · rw [Function.update_of_ne (Ne.symm hhost)]

/-- A play leaves on the first etcd host what the script leaves there. -/
theorem certPlay_first {play : List String} {s s' : CertState}
    (h : certPlay force inv draw play s = some s') :
    runScript force inv draw s'.script (s.dirs inv.first) = some (s'.dirs inv.first) := by
  simp only [certPlay, Option.bind_eq_bind, Option.bind_eq_some_iff] at h
  obtain ⟨first, hscript, dirs', hdirs, h⟩ := h
  cases h
  have hfirst : dirs' inv.first = first := by
    rw [distributeAll_first hdirs, Function.update_self]
  exact hscript.trans (congrArg some hfirst.symm)

/-! ## The authority of the certificates -/

/-- The certificates of the hosts of the inventory are certificates. -/
theorem not_isCaFile_of_certFiles (h : file ∈ inv.certFiles) : isCaFile file = false := by
  obtain ⟨kind, -, hmem⟩ := List.mem_flatMap.1 h
  obtain ⟨host, -, rfl⟩ := List.mem_map.1 hmem
  exact isCaFile_of_mem_files List.mem_cons_self

/-- The authority of a new run does not change what is no file of an authority. -/
theorem caDir_of_not_isCaFile (h : isCaFile file = false) : caDir draw dir file = dir file := by
  obtain ⟨hcert, hkey⟩ := ne_of_not_isCaFile h
  rw [caDir, if_neg hcert, if_neg hkey, ite_self]

/-- After a successful run of the script all expected files exist. -/
theorem isSome_of_made {ca' : CA}
    (hcert : caDir draw dir "ca.pem" = some (.caCert ca')) (hfile : file ∈ inv.expectedFiles) :
    (((made draw ca' (requested force inv (etcdcertMaster dir))).lookup file).or
      (caDir draw dir file)).isSome := by
  rw [Option.isSome_or, Bool.or_eq_true, made_isSome]
  rcases List.mem_cons.1 hfile with rfl | hfile
  · exact .inr (by rw [hcert]; rfl)
  · obtain ⟨c, hc, hmem⟩ := List.mem_flatMap.1 hfile
    refine (requested_or_isSome force dir hc).imp
      (fun hreq => List.mem_flatMap.2 ⟨c, hreq, hmem⟩) fun hsome => ?_
    rw [caDir_of_not_isCaFile (isCaFile_of_mem_files hmem)]
    exact hsome file hmem

/-- A certificate after a run of the script was made in the run or was there before. -/
theorem signed_of_run {ca' ca'' : CA} {cs : List CertName} {subject : String} {serial : Nat}
    (hfile : isCaFile file = false)
    (h : ((made draw ca' cs).lookup file).or (caDir draw dir file) =
      some (.cert subject ca'' serial)) :
    ca'' = ca' ∨ file ∉ cs.flatMap CertName.files ∧
      dir file = some (.cert subject ca'' serial) := by
  rcases Option.or_eq_some_iff.1 h with h | ⟨hnone, h⟩
  · exact .inl (signed_of_made h)
  · rw [caDir_of_not_isCaFile hfile] at h
    exact .inr ⟨made_eq_none.1 hnone, h⟩

/-- On the first etcd host the certificates are valid after a run iff the key of the authority was
there, or nothing was made, or all certificates of the hosts were made again. -/
theorem runScript_valid_iff (hca : OneCa ca dir) (hfresh : draw.ca ≠ ca)
    (hrun : runScript force inv draw script dir = some dir') :
    CertsValid inv dir' ↔
      (dir "ca-key.pem").isSome ∨ (force = false ∧ ∀ file ∈ inv.expectedFiles, (dir file).isSome) ∨
        ∀ file ∈ inv.certFiles, ∀ subject ca' serial, dir file = some (.cert subject ca' serial) →
          file ∈ (requested force inv (etcdcertMaster dir)).flatMap CertName.files := by
  rw [runScript] at hrun
  cases hgen : genCerts force inv (etcdcertMaster dir) with
  | false =>
    -- nothing is made
    rw [hgen, if_neg Bool.false_ne_true] at hrun
    cases hrun
    have hall := genCerts_eq_false.1 hgen
    refine iff_of_true ⟨hall.2, fun file _ subject ca' serial hf => ?_⟩ (.inr (.inl hall))
    obtain ⟨caCert, hpem⟩ := Option.isSome_iff_exists.1 (hall.2 "ca.pem" List.mem_cons_self)
    rw [hca.signed file subject ca' serial hf, hpem, hca.caCert _ hpem]
  | true =>
    have hnot : ¬ (force = false ∧ ∀ file ∈ inv.expectedFiles, (dir file).isSome) := by
      rw [← genCerts_eq_false, hgen]
      exact nofun
    rw [hgen, if_pos rfl] at hrun
    split at hrun
    · obtain ⟨ca', hwhich, hcert, rfl⟩ := makeSslEtcd_eq_some hca hrun
      have hpem : ((made draw ca' (requested force inv (etcdcertMaster dir))).lookup "ca.pem").or
          (caDir draw dir "ca.pem") = some (.caCert ca') := by
        rw [made_of_isCaFile rfl, Option.none_or, hcert]
      simp only [CertsValid, hpem, hnot, false_or]
      rw [and_iff_right fun file hfile => isSome_of_made hcert hfile]
      rcases hwhich with ⟨hkey, rfl⟩ | ⟨hkey, rfl⟩
      · -- the authority of the directory
        refine iff_of_true (fun file hfile subject ca'' serial hf => ?_) (.inl hkey)
        rcases signed_of_run (not_isCaFile_of_certFiles hfile) hf with rfl | ⟨-, hf⟩
        · rfl
        · rw [hca.signed file subject ca'' serial hf]
      · -- a new authority
        simp only [hkey, Option.isSome_none, Bool.false_eq_true, false_or]
        constructor
        · intro h file hfile subject ca' serial hf
          by_contra hnot
          have hkept :
              ((made draw draw.ca (requested force inv (etcdcertMaster dir))).lookup file).or
              (caDir draw dir file) = some (.cert subject ca' serial) := by
            rw [made_eq_none.2 hnot, Option.none_or,
              caDir_of_not_isCaFile (not_isCaFile_of_certFiles hfile), hf]
          obtain rfl := hca.signed file subject ca' serial hf
          exact hfresh
            (Content.caCert.inj (Option.some.inj (h file hfile subject ca' serial hkept)))
        · intro h file hfile subject ca' serial hf
          rcases signed_of_run (not_isCaFile_of_certFiles hfile) hf with rfl | ⟨hnot, hf⟩
          · rfl
          · exact absurd (h file hfile subject ca' serial hf) hnot
    · cases hrun

end

/-- After a play on a directory of one authority the first etcd host has every expected file and all
certificates of the inventory's hosts there are signed by its `ca.pem`, iff `ca-key.pem` was there,
or nothing was made, or every certificate of a host was made again. -/
theorem one_ca {force : Bool} {inv : CertInventory} {draw : Draw} {play : List String}
    {s s' : CertState} {ca : CA} (hca : OneCa ca (s.dirs inv.first)) (hfresh : draw.ca ≠ ca)
    (hrun : certPlay force inv draw play s = some s') :
    CertsValid inv (s'.dirs inv.first) ↔
      (s.dirs inv.first "ca-key.pem").isSome ∨
        (force = false ∧ ∀ file ∈ inv.expectedFiles, (s.dirs inv.first file).isSome) ∨
          ∀ file ∈ inv.certFiles, ∀ subject ca' serial,
            s.dirs inv.first file = some (.cert subject ca' serial) →
              file ∈ (requested force inv (etcdcertMaster (s.dirs inv.first))).flatMap
                CertName.files :=
  runScript_valid_iff hca hfresh (certPlay_first hrun)

/-- An inventory of an etcd host and one other node. -/
def exampleInventory : CertInventory where
  first := "node1"
  others := []
  k8sCluster := ["node1", "node2"]

/-- What the run draws, with the key 1 for a new authority. -/
def exampleDraw : Draw := { ca := 1, serial := fun _ => 0 }

/-- The directory of the authority 0 after `node2` was added to the inventory, with these files of
the authority. -/
def exampleCertDir (authority : Files) : CertDir := fun file =>
  (made exampleDraw 0 [⟨.member, "node1"⟩, ⟨.admin, "node1"⟩, ⟨.node, "node1"⟩] ++ authority).lookup
    file

/-- The state before the first play. -/
def exampleCertState (authority : Files) : CertState where
  dirs h := if h = "node1" then exampleCertDir authority else fun _ => none
  required _ := false
  script := false

/-- Any of the files of the authority may be missing. -/
theorem oneCa_example {authority : Files} (h : authority.Sublist (caFiles 0)) :
    OneCa 0 (exampleCertDir authority) := by
  have hcases : ∀ file c, authority.lookup file = some c → (file, c) ∈ caFiles 0 := by
    intro file c hc
    obtain ⟨_, _, rfl, -⟩ := List.lookup_eq_some_iff.1 hc
    exact h.subset (List.mem_append_right _ List.mem_cons_self)
  constructor
  · intro c hc
    rw [exampleCertDir, lookup_made_append rfl] at hc
    simpa [caFiles] using hcases _ _ hc
  · intro c hc
    rw [exampleCertDir, lookup_made_append rfl] at hc
    simpa [caFiles] using hcases _ _ hc
  · intro file subject ca' serial hc
    rw [exampleCertDir, List.lookup_append] at hc
    rcases Option.or_eq_some_iff.1 hc with hc | ⟨-, hc⟩
    · exact signed_of_made hc
    · simpa [caFiles] using hcases _ _ hc

/-- With `ca-key.pem` lost, the certificates of `node1` stay signed by the old authority, while
`ca.pem` is that of a new one. -/
theorem one_ca_fails :
    OneCa 0 ((exampleCertState [("ca.pem", .caCert 0)]).dirs "node1") ∧
      ∃ s', certPlay false exampleInventory exampleDraw ["node1", "node2"]
          (exampleCertState [("ca.pem", .caCert 0)]) = some s' ∧
        ¬ CertsValid exampleInventory (s'.dirs "node1") := by
  refine ⟨oneCa_example (by simp [caFiles]), _, rfl, fun h => ?_⟩
  have hpem := h.2 "member-node1.pem" (by decide) "/CN=etcd-member-node1" 0 0 (by rfl)
  exact absurd hpem (by decide)

/-- With both files of the authority the added node gets a certificate of it. -/
theorem one_ca_added_node :
    ∃ s', certPlay false exampleInventory exampleDraw ["node1", "node2"]
        (exampleCertState (caFiles 0)) = some s' ∧
      CertsValid exampleInventory (s'.dirs "node1") := by
  have hca : OneCa 0 ((exampleCertState (caFiles 0)).dirs exampleInventory.first) :=
    oneCa_example (.refl _)
  have hfresh : exampleDraw.ca ≠ 0 := by decide
  have hkey : ((exampleCertState (caFiles 0)).dirs exampleInventory.first "ca-key.pem").isSome := by
    decide
  obtain ⟨s', hrun⟩ : ∃ s', certPlay false exampleInventory exampleDraw ["node1", "node2"]
      (exampleCertState (caFiles 0)) = some s' := ⟨_, rfl⟩
  exact ⟨s', hrun, (one_ca hca hfresh hrun).2 (.inl hkey)⟩

end Kubespray
