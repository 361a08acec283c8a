import Kubespray.Lib.Grep
import Kubespray.Lib.PyStr
import Mathlib.Data.List.Nodup

/-!
# The members of an etcd cluster

The addresses and URLs of an etcd host (`roles/kubespray-defaults/defaults/main.yaml`), the members
of a cluster and the lines by which `etcdctl member list` prints them.
-/

namespace Kubespray

/-- The characters of IP addresses and plain host names. -/
def isAddressChar (c : Char) : Bool := c.isAlphanum || c == '.' || c == ':'

/-- The text of an address. Of the characters that are special to `grep` it has only dots, and none
that is special to the shell. -/
structure Address where
  /-- The text. -/
  text : String
  ne_empty : text ≠ ""
  plain : text.toList.all isAddressChar = true
  deriving DecidableEq

/-- The variables of a host from which its etcd addresses and its member name come. -/
structure EtcdHost where
  /-- `inventory_hostname`. -/
  name : String
  /-- `ip`, if it is defined. -/
  ip : Option Address := none
  /-- `access_ip`, if it is defined. -/
  accessIp : Option Address := none
  /-- The host's entry of `fallback_ips`. -/
  fallbackIp : Address
  /-- `etcd_access_address`, if the inventory sets it for the host. -/
  ownAccessAddress : Option Address := none
  /-- `etcd_member_name`, if the inventory sets it for the host. -/
  ownMemberName : Option String := none
  deriving DecidableEq

namespace EtcdHost

/-- `etcd_address`. -/
def etcdAddress (h : EtcdHost) : Address := h.ip.getD h.fallbackIp

/-- `etcd_access_address`. -/
def etcdAccessAddress (h : EtcdHost) : Address :=
  h.ownAccessAddress.getD (h.accessIp.getD h.etcdAddress)

end EtcdHost

/-- `etcd_peer_url` for an access address. -/
def peerUrl (a : Address) : String := "https://" ++ a.text ++ ":2380"

/-- Different addresses have different URLs. -/
theorem peerUrl_inj {a b : Address} : peerUrl a = peerUrl b ↔ a = b := by
  refine ⟨fun h => ?_, congrArg peerUrl⟩
  have htext : a.text = b.text := by
    have hl := congrArg String.toList h
    simp only [peerUrl, String.toList_append, List.append_assoc, List.append_cancel_left_eq,
      List.append_cancel_right_eq] at hl
    exact String.toList_inj.1 hl
  cases a
  cases b
  cases htext
  rfl

/-- `etcd_client_url` for an access address. -/
def clientUrl (a : Address) : String := "https://" ++ a.text ++ ":2379"

/-- A member of the cluster. -/
structure Member where
  /-- Its id in hexadecimal. -/
  id : String
  id_plain : ',' ∉ id.toList
  /-- It has been started since it was added; before, it has no name and no client URL. -/
  started : Bool
  /-- The name it was started with. -/
  name : String
  /-- The access address of its URLs. -/
  address : Address
  deriving DecidableEq

/-- The line of `etcdctl member list`: id, status, name, peer URLs and client URLs. -/
def Member.line (m : Member) : String :=
  m.id ++ "," ++
    if m.started then " started, " ++ m.name ++ ", " ++ peerUrl m.address ++ ", " ++
      clientUrl m.address
    else " unstarted, , " ++ peerUrl m.address ++ ", "

/-- `cut -d, -f1`. -/
def cutFirst (line : String) : String := (Py.split ',' line).head?.getD ""

/-- The first field of a member's line is its id. -/
@[simp] theorem cutFirst_line (m : Member) : cutFirst m.line = m.id := by
  have h : m.line = m.id ++ String.singleton ',' ++ _ := rfl
  rw [h, cutFirst, Py.split_append m.id_plain]
  rfl

/-- The URLs of a member's line have its address in them. -/
theorem address_infix_line (m : Member) : m.address.text.toList <:+: m.line.toList := by
  rw [Member.line]
  split
  · refine ⟨(m.id ++ "," ++ " started, " ++ m.name ++ ", " ++ "https://").toList,
      (":2380" ++ ", " ++ clientUrl m.address).toList, ?_⟩
    simp [peerUrl]
  · refine ⟨(m.id ++ "," ++ " unstarted, , " ++ "https://").toList, (":2380" ++ ", ").toList, ?_⟩
    simp [peerUrl]

/-- A search for a member's address selects its line. -/
theorem selects_line (m : Member) : Grep.selects m.address.text m.line = true :=
  Grep.selects_of_infix (address_infix_line m)

/-- The members of a cluster: no two have the same id or the same URLs. -/
structure Membership where
  /-- The members, in the order of `etcdctl member list`. -/
  members : List Member
  ids : (members.map Member.id).Nodup
  addresses : (members.map Member.address).Nodup

namespace Membership

variable {ms : Membership} {m m' : Member}

/-- `etcdctl member list`. -/
def memberList (ms : Membership) : List String := ms.members.map Member.line

/-- The membership without the member with this id. -/
def remove (ms : Membership) (id : String) : Membership where
  members := ms.members.filter (·.id ≠ id)
  ids := ms.ids.sublist (List.filter_sublist.map _)
  addresses := ms.addresses.sublist (List.filter_sublist.map _)

/-- Members with the same id are one. -/
theorem eq_of_id (hm : m ∈ ms.members) (hm' : m' ∈ ms.members) (h : m.id = m'.id) : m = m' :=
  List.inj_on_of_nodup_map ms.ids hm hm' h

/-- Members with the same address are one. -/
theorem eq_of_address (hm : m ∈ ms.members) (hm' : m' ∈ ms.members)
    (h : m.address = m'.address) : m = m' :=
  List.inj_on_of_nodup_map ms.addresses hm hm' h

end Membership

/-- The address 10.0.0.1. -/
def address1 : Address := ⟨"10.0.0.1", by decide, by decide⟩

/-- The address 10.0.0.2. -/
def address2 : Address := ⟨"10.0.0.2", by decide, by decide⟩

/-- A started member with the address 10.0.0.1. -/
def member1 (name : String) : Member where
  id := "91bc3c398fb3c146"
  id_plain := by decide
  started := true
  name := name
  address := address1

end Kubespray
