import Kubespray.Etcd.Members
import Kubespray.Lib.Unique

/-!
# The removal of an etcd member

`roles/remove-node/remove-etcd-node`: the member of a host is looked up by searching the lines of
`etcdctl member list` for `node_ip`, and the ids found are passed to `etcdctl member remove`. The
members, though, carry the host's `etcd_access_address`, and a text can be found in the line of
another. `remove_own_member` says exactly when the role removes the host's own member and no other,
and what a sequence of such removals leaves; `remove_own_member_fails` removes a host whose member
is gone already and loses the member of another host.
-/

namespace Kubespray

/-- How a task fails a host. -/
inductive TaskFailure where
  /-- A failed assertion, with its message. -/
  | assertion (msg : String)
  /-- A command with a non-zero exit status. -/
  | command
  deriving DecidableEq, Repr

/-- `Lookup node IP in kubernetes` and `Set node IP`; `internalIp` is what `kubectl` prints. -/
def nodeIp (internalIp : Option Address) (h : EtcdHost) : Option Address :=
  h.ip <|> h.accessIp <|> internalIp

/-- `Lookup etcd member id`: the lines of its output. -/
def lookupEtcdMemberId (nodeIp : Address) (ms : Membership) : List String :=
  (ms.memberList.filter fun line => Grep.selects nodeIp.text line).map cutFirst

/-- `Remove etcd member from cluster`, which is skipped when the lookup printed nothing.
`etcdctl member remove` takes exactly one id. -/
def removeEtcdMember (memberId : List String) (ms : Membership) :
    Except TaskFailure Unit × Membership :=
  match memberId with
  | [] => (.ok (), ms)
  | [id] => (.ok (), ms.remove id)
  | _ => (.error .command, ms)

/-- The role `remove-node/remove-etcd-node` on a host, with the membership it leaves. -/
def removeEtcdNode (etcd : List String) (internalIp : Option Address) (h : EtcdHost)
    (ms : Membership) : Except TaskFailure Unit × Membership :=
  if h.name ∈ etcd then
    match nodeIp internalIp h with
    | none => (.error (.assertion "Etcd node ip is not set !"), ms)
    | some ip => removeEtcdMember (lookupEtcdMemberId ip ms) ms
  else (.ok (), ms)

/-- The membership after the role has run on these hosts, one after another. -/
def removals (etcd : List String) (internalIp : EtcdHost → Option Address) (hosts : List EtcdHost)
    (ms : Membership) : Membership :=
  hosts.foldl (fun ms h => (removeEtcdNode etcd (internalIp h) h ms).2) ms

/-- The search for the host's `node_ip` selects the member's line. -/
def FindsMember (internalIp : Option Address) (h : EtcdHost) (m : Member) : Prop :=
  ∃ ip ∈ nodeIp internalIp h, Grep.selects ip.text m.line = true

/-- The search selects the line of this member and of no other. -/
def FindsOnly (internalIp : Option Address) (h : EtcdHost) (ms : Membership) (m : Member) : Prop :=
  ∀ m' ∈ ms.members, FindsMember internalIp h m' ↔ m' = m

/-- The search tells the host's own member from the others: it selects a single line if the host has
a member, and then that member's. -/
def Identifies (internalIp : Option Address) (h : EtcdHost) (ms : Membership) : Prop :=
  ∀ m ∈ ms.members, FindsOnly internalIp h ms m ↔ m.address = h.etcdAccessAddress

instance (internalIp : Option Address) (h : EtcdHost) (m : Member) :
    Decidable (FindsMember internalIp h m) :=
  inferInstanceAs (Decidable (∃ ip ∈ nodeIp internalIp h, _))

instance (internalIp : Option Address) (h : EtcdHost) (ms : Membership) :
    Decidable (Identifies internalIp h ms) :=
  inferInstanceAs (Decidable (∀ m ∈ ms.members, (∀ m' ∈ ms.members, _ ↔ _) ↔ _))

section
variable {etcd : List String} {internalIp : Option Address} {h : EtcdHost} {ms : Membership}
  {m : Member}

theorem lookupEtcdMemberId_eq (ip : Address) (ms : Membership) :
    lookupEtcdMemberId ip ms =
      (ms.members.filter fun m => Grep.selects ip.text m.line).map Member.id := by
  rw [lookupEtcdMemberId, Membership.memberList, List.filter_map, List.map_map]
  exact List.map_congr_left fun m _ => cutFirst_line m

/-- The role removes a member that its search finds alone. -/
theorem removeEtcdNode_of_findsOnly (hetcd : h.name ∈ etcd) (hm : m ∈ ms.members)
    (hfinds : FindsOnly internalIp h ms m) :
    (removeEtcdNode etcd internalIp h ms).2 = ms.remove m.id := by
  obtain ⟨ip, hip, -⟩ := (hfinds m hm).2 rfl
  have hnode : nodeIp internalIp h = some ip := hip
  have hlookup : lookupEtcdMemberId ip ms = [m.id] := by
    rw [lookupEtcdMemberId_eq,
      (Unique.filter_eq_singleton (ms.ids.of_map _)).2 ⟨hm, fun m' hm' => ?_⟩]
    · rfl
    · rw [← hfinds m' hm']
      simp [FindsMember, hnode]
  rw [removeEtcdNode, if_pos hetcd, hnode]
  change (removeEtcdMember (lookupEtcdMemberId ip ms) ms).2 = _
  rw [hlookup]
  rfl

/-- Where the search finds no member alone, the role leaves the membership as it is. -/
theorem removeEtcdNode_of_not_findsOnly (hnone : ∀ m ∈ ms.members, ¬ FindsOnly internalIp h ms m) :
    (removeEtcdNode etcd internalIp h ms).2 = ms := by
  unfold removeEtcdNode
  split
  · cases hnode : nodeIp internalIp h with
    | none => rfl
    | some ip =>
      change (removeEtcdMember (lookupEtcdMemberId ip ms) ms).2 = ms
      rw [lookupEtcdMemberId_eq]
      unfold removeEtcdMember
      split
      · rfl
      · rename_i id hid
        obtain ⟨m, hfilter, -⟩ := List.map_eq_singleton_iff.1 hid
        obtain ⟨hm, honly⟩ := (Unique.filter_eq_singleton (ms.ids.of_map _)).1 hfilter
        refine absurd (fun m' hm' => ?_) (hnone m hm)
        rw [← honly m' hm']
        simp [FindsMember, hnode]
      · rfl
  · rfl

/-- The membership without the host's own member, if it has one. -/
def withoutOwn (h : EtcdHost) (ms : Membership) : List Member :=
  ms.members.filter fun m => m.address ≠ h.etcdAccessAddress

/-- The members without a given one are those without the host's own iff it is the host's. -/
theorem remove_eq_withoutOwn_iff (hm : m ∈ ms.members) :
    (ms.remove m.id).members = withoutOwn h ms ↔ m.address = h.etcdAccessAddress := by
  constructor
  · intro heq
    by_contra hne
    have hmem : m ∈ withoutOwn h ms := List.mem_filter.2 ⟨hm, by simpa using hne⟩
    rw [← heq, Membership.remove, List.mem_filter] at hmem
    simp at hmem
  · intro hown
    refine List.filter_congr fun m' hm' => ?_
    rw [decide_eq_decide, ← hown]
    exact not_congr ⟨fun hid => by rw [ms.eq_of_id hm' hm hid],
      fun hid => by rw [ms.eq_of_address hm' hm hid]⟩

/-- One removal: the role takes exactly the host's own member out iff its search identifies it. -/
theorem removeEtcdNode_iff (hetcd : h.name ∈ etcd) :
    (removeEtcdNode etcd internalIp h ms).2.members = withoutOwn h ms ↔
      Identifies internalIp h ms := by
  by_cases hex : ∃ m ∈ ms.members, FindsOnly internalIp h ms m
  · obtain ⟨m, hm, hfinds⟩ := hex
    rw [removeEtcdNode_of_findsOnly hetcd hm hfinds, remove_eq_withoutOwn_iff hm]
    refine ⟨fun hown m' hm' => ⟨fun hfinds' => ?_, fun hown' => ?_⟩, fun hid => (hid m hm).1 hfinds⟩
    · have heq : m = m' := (hfinds' m hm).1 ((hfinds m hm).2 rfl)
      exact heq ▸ hown
    · have heq : m = m' := ms.eq_of_address hm hm' (hown.trans hown'.symm)
      exact heq ▸ hfinds
  · have hnone : ∀ m ∈ ms.members, ¬ FindsOnly internalIp h ms m :=
      fun m hm hfinds => hex ⟨m, hm, hfinds⟩
    rw [removeEtcdNode_of_not_findsOnly hnone, withoutOwn, eq_comm, List.filter_eq_self]
    refine forall₂_congr fun m hm => ?_
    simp [hnone m hm]

end

/-- The role removes exactly the member of the host, or nothing if the host has none, iff the search
for its `node_ip` identifies it; and if the search does so in every removal of a sequence, the
sequence leaves exactly the members of the other hosts. -/
theorem remove_own_member (etcd : List String) (internalIp : EtcdHost → Option Address) :
    (∀ (h : EtcdHost) (ms : Membership), h.name ∈ etcd →
      ((removeEtcdNode etcd (internalIp h) h ms).2.members =
          ms.members.filter (fun m => m.address ≠ h.etcdAccessAddress) ↔
        Identifies (internalIp h) h ms)) ∧
    ∀ (hosts : List EtcdHost) (ms : Membership), (∀ h ∈ hosts, h.name ∈ etcd) →
      (∀ before h after, hosts = before ++ h :: after →
        Identifies (internalIp h) h (removals etcd internalIp before ms)) →
      (removals etcd internalIp hosts ms).members =
        ms.members.filter fun m => m.address ∉ hosts.map EtcdHost.etcdAccessAddress := by
  refine ⟨fun h ms hetcd => removeEtcdNode_iff hetcd, fun hosts => ?_⟩
  induction hosts with
  | nil => exact fun ms _ _ => by simp [removals]
  | cons h hosts ih =>
    intro ms hetcd hid
    have hfirst : Identifies (internalIp h) h ms := hid [] h hosts rfl
    have hrest := ih (removeEtcdNode etcd (internalIp h) h ms).2
      (fun h' hh' => hetcd h' (List.mem_cons_of_mem _ hh'))
      fun before h' after he => hid (h :: before) h' after (by rw [he]; rfl)
    rw [(removeEtcdNode_iff (hetcd h List.mem_cons_self)).2 hfirst, withoutOwn,
      List.filter_filter] at hrest
    refine hrest.trans (List.filter_congr fun m _ => ?_)
    simp [not_or, Bool.and_comm]

/-- The inventory host with this name and `ip`. -/
def exampleHost (name : String) (ip : Address) : EtcdHost :=
  { name, ip := some ip, fallbackIp := ip }

/-- A cluster of three members, of which the address of the second is the beginning of that of the
first. -/
def exampleMembership : Membership where
  members :=
    [{ id := "8e9e05c52164694d", id_plain := by decide, started := true, name := "etcd3"
       address := ⟨"10.0.0.10", by decide, by decide⟩ },
     member1 "etcd1",
     { id := "fd422379fda50e48", id_plain := by decide, started := true, name := "etcd2"
       address := address2 }]
  ids := by decide
  addresses := by decide

/-- The second removal of the host with the address 10.0.0.1, whose member is gone, takes out the
member with the address 10.0.0.10. -/
theorem remove_own_member_fails :
    let node1 := exampleHost "node1" ⟨"10.0.0.1", by decide, by decide⟩
    let ms := exampleMembership.remove "91bc3c398fb3c146"
    node1.name ∈ ["node1", "node2", "node3"] ∧
      (∀ m ∈ ms.members, m.address ≠ node1.etcdAccessAddress) ∧
      (removeEtcdNode ["node1", "node2", "node3"] none node1 ms).2.members ≠
        ms.members.filter (fun m => m.address ≠ node1.etcdAccessAddress) := by
  decide +kernel

/-- The host with the address 10.0.0.2 is removed twice. -/
theorem remove_own_member_twice :
    let node2 := exampleHost "node2" ⟨"10.0.0.2", by decide, by decide⟩
    (removals ["node1", "node2", "node3"] (fun _ => none)
      [node2, node2] exampleMembership).members =
      exampleMembership.members.filter
        fun m => m.address ∉ [node2, node2].map EtcdHost.etcdAccessAddress := by
  refine (remove_own_member _ _).2 _ _ (by decide) fun before h after he => ?_
  match before with
  | [] =>
    cases he
    decide +kernel
  | [_] =>
    cases he
    decide +kernel
  | _ :: _ :: before => simp at he

end Kubespray
