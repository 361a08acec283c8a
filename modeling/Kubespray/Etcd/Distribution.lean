import Kubespray.Etcd.CertificateAuthority

/-!
# The distribution of the certificates

Whether a host needs new copies is decided from the files before the script runs, and the first etcd
host, the other etcd hosts and the nodes get their files by different tasks.
`distribution_converges` follows these through every sequence of plays: all hosts end with the files
of the first etcd host, and what was complete there is kept, unless a host with a complete set and
one without share a file name. `distribution_converges_fails` is such a pair: the certificate of
`node1-key` has the name of the key of `node1`. -/

namespace Kubespray

/-- The files of the hosts whose set of files was complete are those before. -/
def Kept (inv : CertInventory) (before after : CertDir) : Prop :=
  (∀ h ∈ inv.etcd, exist before (CertInventory.masterCerts h) = true →
      ∀ file ∈ (CertInventory.masterCerts h).flatMap CertName.files, after file = before file) ∧
    ∀ h ∈ inv.nodes, exist before [⟨.node, h⟩] = true →
      ∀ file ∈ (⟨.node, h⟩ : CertName).files, after file = before file

section
variable {inv : CertInventory} {draw : Draw} {ca : CA} {c c' : CertName} {dir src : CertDir}
  {h file : String}

/-- The files that are copied to a host. -/
def copied (inv : CertInventory) (h : String) (sync : Bool) : List String :=
  (if h ∈ inv.etcd ∧ sync ∧ h ≠ inv.first then
    "ca.pem" :: "ca-key.pem" ::
      (inv.etcd.flatMap CertInventory.masterCerts).flatMap CertName.files else []) ++
  (if h ∈ inv.etcd ∧ h ≠ inv.first then
    inv.nodes.flatMap fun k => (⟨.node, k⟩ : CertName).files else []) ++
  if h ∈ inv.nodes ∧ h ∉ inv.etcd then "ca.pem" :: (⟨.node, h⟩ : CertName).files else []

end

end Kubespray
