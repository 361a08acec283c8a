import Kubespray.Etcd.Members
import Mathlib.Algebra.GroupWithZero.Nat
import Mathlib.Algebra.Order.BigOperators.Group.List
import Mathlib.Algebra.Order.Group.Nat
import Mathlib.Data.List.Perm.Basic

/-!
# The join of new etcd members

`roles/etcd`: the hosts of the etcd group whose access address no line of `etcdctl member list`
matches are added to the cluster one at a time, each with an initial cluster of the members found so
far and itself (`join_etcd_member.yml`).
-/

namespace Kubespray

/-! ## The names and URLs of the group -/

/-- The body of the loop in `etcd_member_name`, for a host of the group and its index. -/
def printMemberName (h : EtcdHost) (p : EtcdHost × Nat) : String :=
  if h.name = p.1.name then p.1.ownMemberName.getD ("etcd" ++ toString p.2) else ""

/-- `etcd_member_name`. -/
def etcdMemberName (etcd : List EtcdHost) (h : EtcdHost) : String :=
  String.join ((etcd.zipIdx 1).map (printMemberName h))

/-- A member of an initial cluster, written `name=url`. -/
structure PeerEntry where
  name : String
  url : String
  deriving DecidableEq, Repr

/-- The entry of a member under the name and the URL it is registered with. -/
def Member.entry (m : Member) : PeerEntry := ⟨m.name, peerUrl m.address⟩

/-- The entry of a host under its own `etcd_member_name` and `etcd_peer_url`. -/
def ownEntry (etcd : List EtcdHost) (h : EtcdHost) : PeerEntry :=
  ⟨etcdMemberName etcd h, peerUrl h.etcdAccessAddress⟩

/-- The entry by which `join_etcd_member.yml` lists the host at this place of the group: a name from
the place, and `ip` where `hostvars` has no `etcd_access_address`. -/
def listedEntry (host : EtcdHost) (index : Nat) : PeerEntry :=
  ⟨"etcd" ++ toString index, peerUrl (host.ownAccessAddress.getD (host.ip.getD host.fallbackIp))⟩

/-- `etcd_peer_addresses` of `join_etcd_member.yml` on the host `h`, when `etcd_member_in_cluster`
has succeeded on the hosts `inCluster`. -/
def joinPeerAddresses (etcd inCluster : List EtcdHost) (h : EtcdHost) : List PeerEntry :=
  ((etcd.zipIdx 1).filter fun p => p.1 ∈ inCluster).map (fun p => listedEntry p.1 p.2) ++
    [ownEntry etcd h]

/-! ## The membership check and the join loop -/

/-- An id that no member has. -/
abbrev FreshId (ms : Membership) : Type :=
  { id : String // ',' ∉ id.toList ∧ id ∉ ms.members.map Member.id }

/-- `etcdctl member add`; the error that the peer URL exists already is passed over. -/
def Membership.add (ms : Membership) (id : FreshId ms) (a : Address) : Membership :=
  if h : a ∈ ms.members.map Member.address then ms
  else
    { members := ms.members ++
        [{ id := id.1, id_plain := id.2.1, started := false, name := "", address := a }]
      ids := by
        rw [List.map_append, List.map_singleton, ← List.concat_eq_append]
        exact ms.ids.concat id.2.2
      addresses := by
        rw [List.map_append, List.map_singleton, ← List.concat_eq_append]
        exact ms.addresses.concat h }

/-- `Ensure etcd is running`: the member with this address is started under the name. -/
def Membership.start (ms : Membership) (name : String) (a : Address) : Membership where
  members := ms.members.map fun m => if m.address = a then { m with started := true, name } else m
  ids := by
    rw [List.map_map]
    convert ms.ids using 2
    funext m
    dsimp only [Function.comp]
    split <;> rfl
  addresses := by
    rw [List.map_map]
    convert ms.addresses using 2
    funext m
    dsimp only [Function.comp]
    split <;> rfl

theorem Membership.members_start (ms : Membership) (name : String) (a : Address) :
    (ms.start name a).members =
      ms.members.map fun m => if m.address = a then { m with started := true, name } else m := rfl

/-- `Check if member is in etcd cluster`, by `grep -q`. -/
def memberInCluster (ms : Membership) (h : EtcdHost) : Bool :=
  ms.memberList.any fun line => Grep.selects h.etcdAccessAddress.text line

/-- The cluster and the facts of the hosts between two joins. -/
structure JoinState where
  membership : Membership
  /-- The hosts whose `etcd_member_in_cluster` has the exit status 0. -/
  inCluster : List EtcdHost

/-- A join: the host, the members before it and the initial cluster written for the host. -/
structure Join where
  host : EtcdHost
  present : Membership
  initialCluster : List PeerEntry

section
variable (newId : ∀ ms, FreshId ms) (etcd : List EtcdHost)

/-- `Add member to etcd cluster`. -/
def memberAdd (h : EtcdHost) (ms : Membership) : Membership :=
  ms.add (newId ms) h.etcdAccessAddress

/-- The state after the host `h` has joined. -/
def JoinState.join (h : EtcdHost) (s : JoinState) : JoinState where
  membership := (memberAdd newId h s.membership).start (etcdMemberName etcd h) h.etcdAccessAddress
  inCluster := h :: s.inCluster

/-- `join_etcd_member.yml` on the host `h`; it fails if the new member is not found in the list. -/
def joinEtcdMember (h : EtcdHost) (s : JoinState) : Option (Join × JoinState) :=
  if memberInCluster (memberAdd newId h s.membership) h then
    some ({ host := h, present := s.membership,
            initialCluster := joinPeerAddresses etcd s.inCluster h }, s.join newId etcd h)
  else none

/-- `Join member(s) to etcd cluster one at a time`. -/
def joinLoop : List EtcdHost → JoinState → Option (List Join × JoinState)
  | [], s => some ([], s)
  | item :: items, s =>
    if item ∈ s.inCluster then joinLoop items s
    else do
      let (join, s) ← joinEtcdMember newId etcd item s
      let (joins, s) ← joinLoop items s
      return (join :: joins, s)

/-- The membership check on every host of the group and the join loop. -/
def checkAndJoin (ms : Membership) : Option (List Join × JoinState) :=
  joinLoop newId etcd etcd { membership := ms, inCluster := etcd.filter (memberInCluster ms) }

end

/-! ## The inventory hosts and their members -/

/-- The hosts of the etcd group. -/
structure EtcdGroup where
  hosts : List EtcdHost
  names : (hosts.map EtcdHost.name).Nodup
  addresses : (hosts.map EtcdHost.etcdAccessAddress).Nodup

/-- The host has a member. -/
def IsMember (ms : Membership) (h : EtcdHost) : Prop :=
  h.etcdAccessAddress ∈ ms.members.map Member.address

instance (ms : Membership) (h : EtcdHost) : Decidable (IsMember ms h) :=
  inferInstanceAs (Decidable (_ ∈ _))

/-- Every member is started and belongs to a host of the group, under whose name and URLs it is
registered. -/
def Registered (etcd : EtcdGroup) (ms : Membership) : Prop :=
  ∀ m ∈ ms.members, m.started = true ∧ ∃ h ∈ etcd.hosts,
    m.name = etcdMemberName etcd.hosts h ∧ m.address = h.etcdAccessAddress

instance (etcd : EtcdGroup) (ms : Membership) : Decidable (Registered etcd ms) :=
  inferInstanceAs (Decidable (∀ m ∈ ms.members, _ ∧ ∃ h ∈ etcd.hosts, _))

/-- The hosts that have a member. -/
def EtcdGroup.joined (etcd : EtcdGroup) (ms : Membership) : List EtcdHost :=
  etcd.hosts.filter fun h => IsMember ms h

/-- The hosts that have no member. -/
def EtcdGroup.missing (etcd : EtcdGroup) (ms : Membership) : List EtcdHost :=
  etcd.hosts.filter fun h => ¬ IsMember ms h

/-- The entry by which `join_etcd_member.yml` lists a host of the group. -/
def EtcdGroup.listed (etcd : EtcdGroup) (h : EtcdHost) : PeerEntry :=
  listedEntry h (etcd.hosts.idxOf h + 1)

section
variable {newId : ∀ ms, FreshId ms} {etcd : EtcdGroup} {ms : Membership} {h : EtcdHost}
  {s : JoinState}

theorem EtcdGroup.nodup (etcd : EtcdGroup) : etcd.hosts.Nodup := etcd.names.of_map _

/-- Hosts with the same access address are one. -/
theorem EtcdGroup.eq_of_address {h' : EtcdHost} (hh : h ∈ etcd.hosts) (hh' : h' ∈ etcd.hosts)
    (heq : h.etcdAccessAddress = h'.etcdAccessAddress) : h = h' :=
  List.inj_on_of_nodup_map etcd.addresses hh hh' heq

/-- The search for the address of a member finds it. -/
theorem memberInCluster_of_isMember (hmem : IsMember ms h) : memberInCluster ms h = true := by
  obtain ⟨m, hm, hma⟩ := List.mem_map.1 hmem
  rw [memberInCluster, Membership.memberList, List.any_map, List.any_eq_true]
  exact ⟨m, hm, hma ▸ selects_line m⟩

/-- The entries for the hosts found in the cluster. -/
theorem joinPeerAddresses_eq (etcd : EtcdGroup) (inCluster : List EtcdHost) (h : EtcdHost) :
    joinPeerAddresses etcd.hosts inCluster h =
      (etcd.hosts.filter (· ∈ inCluster)).map etcd.listed ++ [ownEntry etcd.hosts h] := by
  have hidx : etcd.hosts.zipIdx 1 = etcd.hosts.map fun h => (h, etcd.hosts.idxOf h + 1) := by
    refine List.ext_getElem (by simp) fun i hi hi' => ?_
    have hlt : i < etcd.hosts.length := by simpa using hi
    rw [List.getElem_zipIdx, List.getElem_map, etcd.nodup.idxOf_getElem i hlt, Nat.add_comm]
  rw [joinPeerAddresses, hidx, List.filter_map, List.map_map]
  rfl

/-- After `member add` the host has a member. -/
theorem isMember_memberAdd (newId : ∀ ms, FreshId ms) (h : EtcdHost) (ms : Membership) :
    IsMember (memberAdd newId h ms) h := by
  rw [IsMember, memberAdd, Membership.add]
  split
  · assumption
  · simp

/-- The host's new member comes after the others, under the host's name. -/
theorem members_join (newId : ∀ ms, FreshId ms) (etcd : EtcdGroup)
    (hmem : ¬ IsMember s.membership h) :
    ∃ m : Member, m.name = etcdMemberName etcd.hosts h ∧ m.address = h.etcdAccessAddress ∧
      (s.join newId etcd.hosts h).membership.members = s.membership.members ++ [m] := by
  have hold : ∀ m ∈ s.membership.members, m.address ≠ h.etcdAccessAddress :=
    fun m hm heq => hmem (List.mem_map.2 ⟨m, hm, heq⟩)
  refine ⟨{ id := (newId s.membership).1, id_plain := (newId s.membership).2.1, started := true
            name := etcdMemberName etcd.hosts h, address := h.etcdAccessAddress }, rfl, rfl, ?_⟩
  have hadd : (memberAdd newId h s.membership).members = _ :=
    congrArg Membership.members (dif_neg hmem)
  change ((memberAdd newId h s.membership).start _ _).members = _
  rw [Membership.members_start, hadd, List.map_append]
  refine congrArg₂ _ ?_ (by simp)
  exact (List.map_congr_left fun m hm => if_neg (hold m hm)).trans (List.map_id _)

/-- A host always joins: its new member is found by its address. -/
theorem joinEtcdMember_eq (newId : ∀ ms, FreshId ms) (etcd : List EtcdHost) (h : EtcdHost)
    (s : JoinState) :
    joinEtcdMember newId etcd h s =
      some ({ host := h, present := s.membership,
              initialCluster := joinPeerAddresses etcd s.inCluster h }, s.join newId etcd h) :=
  if_pos (memberInCluster_of_isMember (isMember_memberAdd newId h s.membership))

/-! ## The run -/

/-- The loop skips a host found in the cluster. -/
theorem joinLoop_cons_of_mem {etcd items : List EtcdHost} (hin : h ∈ s.inCluster) :
    joinLoop newId etcd (h :: items) s = joinLoop newId etcd items s := if_pos hin

/-- The loop joins a host that is not found in the cluster. -/
theorem joinLoop_cons_of_notMem {etcd items : List EtcdHost} (hin : h ∉ s.inCluster)
    {joins : List Join} {s' : JoinState}
    (hloop : joinLoop newId etcd items (s.join newId etcd h) = some (joins, s')) :
    joinLoop newId etcd (h :: items) s =
      some ({ host := h, present := s.membership,
              initialCluster := joinPeerAddresses etcd s.inCluster h } :: joins, s') := by
  rw [joinLoop, if_neg hin, joinEtcdMember_eq, Option.bind_eq_bind, Option.bind_some]
  simp only [hloop, Option.bind_eq_bind, Option.bind_some]
  rfl

/-- The loop returns, and the hosts that join are those not found in the cluster, in their order. -/
theorem joinLoop_hosts (newId : ∀ ms, FreshId ms) (etcd : List EtcdHost) {items : List EtcdHost}
    (hnd : items.Nodup) (s : JoinState) :
    ∃ joins s', joinLoop newId etcd items s = some (joins, s') ∧
      joins.map Join.host = items.filter (· ∉ s.inCluster) := by
  induction items generalizing s with
  | nil => exact ⟨[], s, rfl, rfl⟩
  | cons item items ih =>
    obtain ⟨hitem, hnd⟩ := List.nodup_cons.1 hnd
    by_cases hin : item ∈ s.inCluster
    · rw [joinLoop_cons_of_mem hin, List.filter_cons_of_neg (by simpa using hin)]
      exact ih hnd s
    · obtain ⟨joins, s', hloop, hhosts⟩ := ih hnd (s.join newId etcd item)
      refine ⟨_, s', joinLoop_cons_of_notMem hin hloop, ?_⟩
      rw [List.map_cons, hhosts, List.filter_cons_of_pos (by simpa using hin)]
      refine congrArg (item :: ·) (List.filter_congr fun h hh => ?_)
      have hne : h ≠ item := fun heq => hitem (heq ▸ hh)
      simp [JoinState.join, hne]

/-- The state of the loop after the hosts `new` have joined a membership `ms`: the hosts found in
the cluster and the members are those of `ms` and the new ones. -/
structure JoinInv (etcd : EtcdGroup) (ms : Membership) (new : List EtcdHost) (s : JoinState) :
    Prop where
  found : (etcd.hosts.filter (· ∈ s.inCluster)).Perm (etcd.joined ms ++ new)
  present : (s.membership.members.map fun m => (m.name, m.address)).Perm
    ((etcd.joined ms ++ new).map fun h => (etcdMemberName etcd.hosts h, h.etcdAccessAddress))

namespace JoinInv

variable {new : List EtcdHost}

theorem mem_inCluster (hinv : JoinInv etcd ms new s) (hh : h ∈ etcd.hosts) :
    h ∈ s.inCluster ↔ IsMember ms h ∨ h ∈ new := by
  have hfound := hinv.found.mem_iff (a := h)
  simpa [EtcdGroup.joined, hh] using hfound

theorem isMember_iff (hinv : JoinInv etcd ms new s) (hnew : ∀ g ∈ new, g ∈ etcd.hosts)
    (hh : h ∈ etcd.hosts) : IsMember s.membership h ↔ IsMember ms h ∨ h ∈ new := by
  have hperm := (hinv.present.map Prod.snd).mem_iff (a := h.etcdAccessAddress)
  simp only [List.map_map, Function.comp_def] at hperm
  rw [IsMember, hperm]
  constructor
  · intro hmem
    obtain ⟨g, hg, heq⟩ := List.mem_map.1 hmem
    rcases List.mem_append.1 hg with hg | hg
    · have hg' := List.mem_filter.1 hg
      rw [← etcd.eq_of_address hg'.1 hh heq]
      exact .inl (by simpa using hg'.2)
    · rw [← etcd.eq_of_address (hnew g hg) hh heq]
      exact .inr hg
  · intro hmem
    refine List.mem_map.2 ⟨h, ?_, rfl⟩
    simpa [EtcdGroup.joined, hh] using hmem

/-- A host that has no member joins. -/
theorem join (hinv : JoinInv etcd ms new s) (hnew : ∀ g ∈ new, g ∈ etcd.hosts)
    (hh : h ∈ etcd.hosts) (hmissing : ¬ IsMember ms h) (hnot : h ∉ new) :
    JoinInv etcd ms (new ++ [h]) (s.join newId etcd.hosts h) := by
  have hno : ¬ (IsMember ms h ∨ h ∈ new) := by simp [hmissing, hnot]
  constructor
  · have hin : h ∉ s.inCluster := fun hin => hno ((hinv.mem_inCluster hh).1 hin)
    rw [← List.append_assoc]
    refine .trans ?_ (hinv.found.append_right [h])
    refine (List.perm_ext_iff_of_nodup (etcd.nodup.filter _) ?_).2 fun g => ?_
    · rw [← List.concat_eq_append]
      exact (etcd.nodup.filter _).concat (by simp [hin])
    · simp only [JoinState.join, List.mem_filter, List.mem_append, List.mem_cons, decide_eq_true_eq]
      constructor
      · rintro ⟨hg, rfl | hg'⟩
        · exact .inr (.inl rfl)
        · exact .inl ⟨hg, hg'⟩
      · rintro (⟨hg, hg'⟩ | rfl | hg)
        · exact ⟨hg, .inr hg'⟩
        · exact ⟨hh, .inl rfl⟩
        · cases hg
  · obtain ⟨m, hname, haddress, hmembers⟩ := members_join newId etcd
      fun hmem => hno ((hinv.isMember_iff hnew hh).1 hmem)
    rw [hmembers, ← List.append_assoc, List.map_append, List.map_append]
    refine hinv.present.append ?_
    rw [List.map_singleton, List.map_singleton, hname, haddress]

/-- The initial cluster written for a host in this state lists the members and the host itself, each
under its own name and URL, iff the listed entries are their own. -/
theorem lists_iff (hinv : JoinInv etcd ms new s) (h : EtcdHost) :
    (joinPeerAddresses etcd.hosts s.inCluster h).Perm
        (s.membership.members.map Member.entry ++ [ownEntry etcd.hosts h]) ↔
      ((etcd.joined ms ++ new).map etcd.listed).Perm
        ((etcd.joined ms ++ new).map (ownEntry etcd.hosts)) := by
  have hpresent : (s.membership.members.map Member.entry).Perm
      ((etcd.joined ms ++ new).map (ownEntry etcd.hosts)) := by
    have hentries := hinv.present.map fun p => (⟨p.1, peerUrl p.2⟩ : PeerEntry)
    rwa [List.map_map, List.map_map] at hentries
  rw [joinPeerAddresses_eq, List.perm_append_right_iff, (hinv.found.map _).congr_left,
    hpresent.congr_right]

end JoinInv

/-- When no line matches the address of a host without a member, the check finds the hosts with
one. -/
theorem mem_found_iff (hnone : ∀ h ∈ etcd.missing ms, memberInCluster ms h = false)
    (hh : h ∈ etcd.hosts) : h ∈ etcd.hosts.filter (memberInCluster ms) ↔ IsMember ms h := by
  rw [List.mem_filter]
  refine ⟨fun hin => ?_, fun hmem => ⟨hh, memberInCluster_of_isMember hmem⟩⟩
  by_contra hmem
  rw [hnone h (List.mem_filter.2 ⟨hh, by simpa using hmem⟩)] at hin
  exact absurd hin.2 nofun

/-- The state in which the loop starts. -/
theorem joinInv_init (hreg : Registered etcd ms)
    (hnone : ∀ h ∈ etcd.missing ms, memberInCluster ms h = false) :
    JoinInv etcd ms []
      { membership := ms, inCluster := etcd.hosts.filter (memberInCluster ms) } := by
  constructor
  · rw [List.append_nil, EtcdGroup.joined]
    refine .of_eq (List.filter_congr fun h hh => ?_)
    rw [decide_eq_decide]
    exact mem_found_iff hnone hh
  · rw [List.append_nil]
    refine (List.perm_ext_iff_of_nodup ?_ ?_).2 fun p => ?_
    · refine .of_map Prod.snd ?_
      rw [List.map_map]
      exact ms.addresses
    · refine .of_map Prod.snd ?_
      rw [List.map_map]
      exact etcd.addresses.sublist (List.filter_sublist.map _)
    · rw [List.mem_map, List.mem_map]
      constructor
      · rintro ⟨m, hm, rfl⟩
        obtain ⟨-, h, hh, hname, haddress⟩ := hreg m hm
        refine ⟨h, List.mem_filter.2 ⟨hh, ?_⟩, by rw [hname, haddress]⟩
        simpa [IsMember] using ⟨m, hm, haddress⟩
      · rintro ⟨h, hh, rfl⟩
        obtain ⟨hh, hmem⟩ := List.mem_filter.1 hh
        obtain ⟨m, hm, hma⟩ := List.mem_map.1 (of_decide_eq_true hmem)
        obtain ⟨-, h', hh', hname, haddress⟩ := hreg m hm
        rw [etcd.eq_of_address hh hh' (hma.symm.trans haddress)]
        exact ⟨m, hm, by rw [hname, haddress]⟩

/-- The joins of the loop, one after another: each comes after those of the hosts before it. -/
theorem joinLoop_joins {new items : List EtcdHost} {joins : List Join} {s' : JoinState}
    (hinv : JoinInv etcd ms new s) (hnew : ∀ g ∈ new, g ∈ etcd.hosts)
    (hitems : ∀ g ∈ items, g ∈ etcd.hosts ∧ g ∉ new) (hnd : items.Nodup)
    (hloop : joinLoop newId etcd.hosts items s = some (joins, s')) {j : Join} (hj : j ∈ joins) :
    ∃ before after, (items.filter fun h => ¬ IsMember ms h) = before ++ j.host :: after ∧
      (j.initialCluster.Perm
          (j.present.members.map Member.entry ++ [ownEntry etcd.hosts j.host]) ↔
        ((etcd.joined ms ++ (new ++ before)).map etcd.listed).Perm
          ((etcd.joined ms ++ (new ++ before)).map (ownEntry etcd.hosts))) := by
  induction items generalizing new s joins with
  | nil =>
    cases hloop
    cases hj
  | cons item items ih =>
    obtain ⟨hitem, hnd⟩ := List.nodup_cons.1 hnd
    obtain ⟨hmem, hnot⟩ := hitems item List.mem_cons_self
    have hrest : ∀ g ∈ items, g ∈ etcd.hosts ∧ g ∉ new := fun g hg =>
      hitems g (List.mem_cons_of_mem _ hg)
    by_cases hold : IsMember ms item
    · rw [joinLoop_cons_of_mem ((hinv.mem_inCluster hmem).2 (.inl hold))] at hloop
      rw [List.filter_cons_of_neg (by simpa using hold)]
      exact ih hinv hnew hrest hnd hloop hj
    · have hin : item ∉ s.inCluster := by simp [hinv.mem_inCluster hmem, hold, hnot]
      obtain ⟨joins', s'', hloop'⟩ : ∃ joins' s'',
          joinLoop newId etcd.hosts items (s.join newId etcd.hosts item) = some (joins', s'') := by
        obtain ⟨joins', s'', hloop', -⟩ := joinLoop_hosts newId etcd.hosts hnd _
        exact ⟨joins', s'', hloop'⟩
      rw [joinLoop_cons_of_notMem hin hloop'] at hloop
      cases hloop
      rw [List.filter_cons_of_pos (by simpa using hold)]
      rcases List.mem_cons.1 hj with rfl | hj
      · exact ⟨[], _, rfl, by rw [List.append_nil]; exact hinv.lists_iff item⟩
      · have hnew' : ∀ g ∈ new ++ [item], g ∈ etcd.hosts := by
          intro g hg
          rcases List.mem_append.1 hg with hg | hg
          · exact hnew g hg
          · exact List.mem_singleton.1 hg ▸ hmem
        have hrest' : ∀ g ∈ items, g ∈ etcd.hosts ∧ g ∉ new ++ [item] := by
          refine fun g hg => ⟨(hrest g hg).1, ?_⟩
          rw [List.mem_append, List.mem_singleton, not_or]
          exact ⟨(hrest g hg).2, fun heq => hitem (heq ▸ hg)⟩
        obtain ⟨before, after, heq, hiff⟩ :=
          ih (hinv.join hnew hmem hold hnot) hnew' hrest' hnd hloop' hj
        refine ⟨item :: before, after, by rw [heq]; rfl, ?_⟩
        rwa [List.append_assoc new, List.singleton_append] at hiff

end

/-- Two functions agree, up to the order of their values, on a list after each proper prefix of
another one iff they agree on the list and on all elements of the other but the last. -/
theorem perm_prefixes_iff {α β : Type*} {f g : α → β} {xs ys : List α} :
    (∀ before a after, ys = before ++ a :: after →
        ((xs ++ before).map f).Perm ((xs ++ before).map g)) ↔
      ∀ inits last, ys = inits ++ [last] → (xs.map f).Perm (xs.map g) ∧ ∀ a ∈ inits, f a = g a := by
  constructor
  · rintro h inits last rfl
    constructor
    · obtain ⟨a, after, ha⟩ : ∃ a after, inits ++ [last] = a :: after :=
        List.exists_cons_of_ne_nil (by simp)
      simpa using h [] a after ha
    · intro a ha
      obtain ⟨before, after, rfl⟩ := List.append_of_mem ha
      have hbefore := h before a (after ++ [last]) (by simp)
      obtain ⟨b, rest, hb⟩ : ∃ b rest, after ++ [last] = b :: rest :=
        List.exists_cons_of_ne_nil (by simp)
      have hthrough := h (before ++ [a]) b rest (by simp [← hb])
      rw [← List.append_assoc, List.map_append, List.map_append (f := g)] at hthrough
      have hcancel := (hbefore.append_right _).symm.trans hthrough
      rw [List.perm_append_left_iff] at hcancel
      simpa using hcancel
  · rintro h before a after rfl
    obtain ⟨rest, last, hlast⟩ : ∃ rest last, a :: after = rest ++ [last] :=
      ⟨_, _, (List.dropLast_append_getLast (List.cons_ne_nil a after)).symm⟩
    obtain ⟨hxs, heq⟩ := h (before ++ rest) last (by rw [hlast, List.append_assoc])
    rw [List.map_append, List.map_append,
      List.map_congr_left fun b hb => heq b (List.mem_append_left _ hb)]
    exact hxs.append_right _

/-- The loop of `etcd_member_name` prints nothing for other hosts. -/
theorem join_printMemberName_of_ne {h : EtcdHost} {hosts : List EtcdHost}
    (hne : ∀ g ∈ hosts, h.name ≠ g.name) (n : Nat) :
    String.join ((hosts.zipIdx n).map (printMemberName h)) = "" := by
  induction hosts generalizing n with
  | nil => rfl
  | cons g hosts ih =>
    have hg : printMemberName h (g, n) = "" := if_neg (hne g List.mem_cons_self)
    rw [List.zipIdx_cons, List.map_cons, String.join_cons, hg,
      ih (fun g' hg' => hne g' (List.mem_cons_of_mem _ hg'))]
    rfl

/-- Among hosts with distinct names it prints the name of the host, from its place if none is
set. -/
theorem join_printMemberName {h : EtcdHost} {hosts : List EtcdHost}
    (hnd : (hosts.map EtcdHost.name).Nodup) (hh : h ∈ hosts) (n : Nat) :
    String.join ((hosts.zipIdx n).map (printMemberName h)) =
      h.ownMemberName.getD ("etcd" ++ toString (hosts.idxOf h + n)) := by
  induction hosts generalizing n with
  | nil => cases hh
  | cons g hosts ih =>
    rw [List.map_cons, List.nodup_cons] at hnd
    rw [List.zipIdx_cons, List.map_cons, String.join_cons]
    rcases List.mem_cons.1 hh with rfl | hh
    · have hg : printMemberName h (h, n) = h.ownMemberName.getD ("etcd" ++ toString n) := if_pos rfl
      rw [hg, join_printMemberName_of_ne fun g hg heq => hnd.1 (heq ▸ List.mem_map_of_mem hg)]
      simp
    · have hne : h.name ≠ g.name := fun heq => hnd.1 (heq ▸ List.mem_map_of_mem hh)
      have hgh : g ≠ h := fun heq => hne (heq ▸ rfl)
      have hg : printMemberName h (g, n) = "" := if_neg hne
      rw [hg, ih hnd.2 hh, List.idxOf_cons_ne _ hgh]
      simp [Nat.add_comm, Nat.add_left_comm]

/-- A listed entry is the host's own iff its name, if it is set, is the one from its place and its
`access_ip`, if `etcd_access_address` is not set, is its `ip`. -/
theorem listed_eq_ownEntry_iff (etcd : EtcdGroup) {h : EtcdHost} (hh : h ∈ etcd.hosts) :
    etcd.listed h = ownEntry etcd.hosts h ↔
      (∀ name ∈ h.ownMemberName, name = "etcd" ++ toString (etcd.hosts.idxOf h + 1)) ∧
        (h.ownAccessAddress = none → ∀ a ∈ h.accessIp, a = h.etcdAddress) := by
  rw [EtcdGroup.listed, listedEntry, ownEntry, etcdMemberName, join_printMemberName etcd.names hh,
    PeerEntry.mk.injEq, peerUrl_inj, EtcdHost.etcdAccessAddress, ← EtcdHost.etcdAddress]
  cases h.ownMemberName <;> cases h.ownAccessAddress <;> cases h.accessIp <;> simp [eq_comm]

/-- The hosts that the check does not find are those without a member iff it finds none of these. -/
theorem notFound_eq_missing_iff (etcd : EtcdGroup) (ms : Membership) :
    etcd.hosts.filter (· ∉ etcd.hosts.filter (memberInCluster ms)) = etcd.missing ms ↔
      ∀ h ∈ etcd.missing ms, memberInCluster ms h = false := by
  constructor
  · intro heq h hh
    rw [← heq, List.mem_filter] at hh
    have hnot : h ∉ etcd.hosts.filter (memberInCluster ms) := of_decide_eq_true hh.2
    simpa [hh.1] using hnot
  · intro hnone
    refine List.filter_congr fun h hh => ?_
    rw [decide_eq_decide, not_iff_not]
    exact mem_found_iff hnone hh

/-- The check and the join loop return. They add exactly the hosts without a member, in the order of
the group, each with an initial cluster of the members present and itself under their own names
and URLs, iff no line of the member list matches the address of such a host, and, if a host joins,
the entries listed for the members and for all joining hosts but the last are their own. -/
theorem join_lists_members (newId : ∀ ms, FreshId ms) (etcd : EtcdGroup) {ms : Membership}
    (hreg : Registered etcd ms) :
    ∃ joins s, checkAndJoin newId etcd.hosts ms = some (joins, s) ∧
      ((joins.map Join.host = etcd.hosts.filter (fun h => ¬ IsMember ms h) ∧
          ∀ j ∈ joins, j.initialCluster.Perm
            (j.present.members.map Member.entry ++ [ownEntry etcd.hosts j.host])) ↔
        (∀ h ∈ etcd.missing ms, ∀ line ∈ ms.memberList,
            Grep.selects h.etcdAccessAddress.text line = false) ∧
          ∀ before last, etcd.missing ms = before ++ [last] →
            ((etcd.joined ms).map etcd.listed).Perm
                ((etcd.joined ms).map (ownEntry etcd.hosts)) ∧
              ∀ h ∈ before, etcd.listed h = ownEntry etcd.hosts h) := by
  have hflag : (∀ h ∈ etcd.missing ms, ∀ line ∈ ms.memberList,
      Grep.selects h.etcdAccessAddress.text line = false) ↔
        ∀ h ∈ etcd.missing ms, memberInCluster ms h = false := by
    simp [memberInCluster]
  obtain ⟨joins, s, hloop, hhosts⟩ := joinLoop_hosts newId etcd.hosts etcd.nodup
    { membership := ms, inCluster := etcd.hosts.filter (memberInCluster ms) }
  refine ⟨joins, s, hloop, ?_⟩
  rw [hflag]
  have hjoin : joins.map Join.host = etcd.missing ms ↔
      ∀ h ∈ etcd.missing ms, memberInCluster ms h = false := by
    rw [hhosts]
    exact notFound_eq_missing_iff etcd ms
  change (joins.map Join.host = etcd.missing ms ∧ _) ↔ _
  rw [hjoin]
  refine and_congr_right fun hnone => ?_
  rw [← perm_prefixes_iff]
  have hjoins : ∀ j ∈ joins, _ := fun j hj =>
    joinLoop_joins (joinInv_init hreg hnone) (fun g hg => nomatch hg)
      (fun g hg => ⟨hg, nofun⟩) etcd.nodup hloop hj
  have hmissing : joins.map Join.host = etcd.missing ms := hjoin.2 hnone
  constructor
  · intro hlists before h after heq
    obtain ⟨j, hj, rfl⟩ : ∃ j ∈ joins, j.host = h := by
      rw [← List.mem_map, hmissing, heq]
      exact List.mem_append_right _ List.mem_cons_self
    obtain ⟨before', after', heq', hiff⟩ := hjoins j hj
    have hnd : (before ++ j.host :: after).Nodup := heq ▸ etcd.nodup.filter _
    have hnot := (List.nodup_middle.1 hnd)
    rw [List.nodup_cons, List.mem_append, not_or] at hnot
    obtain ⟨rfl, -⟩ := (List.append_cons_inj_of_notMem hnot.1.1 hnot.1.2).1 (heq.symm.trans heq')
    exact hiff.1 (hlists j hj)
  · intro hlists j hj
    obtain ⟨before, after, heq, hiff⟩ := hjoins j hj
    exact hiff.2 (hlists before j.host after heq)

/-- An id that is longer than all others. -/
def longerId (ms : Membership) : FreshId ms where
  val := String.ofList (List.replicate ((ms.members.map (·.id.length)).sum + 1) '0')
  property := by
    refine ⟨by simp, fun hmem => ?_⟩
    obtain ⟨m, hm, hid⟩ := List.mem_map.1 hmem
    have hle : m.id.length ≤ (ms.members.map (·.id.length)).sum :=
      List.single_le_sum (fun _ _ => Nat.zero_le _) _ (List.mem_map_of_mem hm)
    rw [hid, String.length_ofList, List.length_replicate] at hle
    omega

/-- A group of two hosts, of which the first has this `etcd_member_name`. -/
def exampleGroup (name : Option String) : EtcdGroup where
  hosts :=
    [{ name := "node1", ip := some address1, fallbackIp := address1, ownMemberName := name },
     { name := "node2", ip := some address2, fallbackIp := address2 }]
  names := by simp
  addresses := by
    simp only [List.map_cons, List.map_nil, EtcdHost.etcdAccessAddress, EtcdHost.etcdAddress]
    decide

/-- The cluster of its first host. -/
def exampleFirst (name : String) : Membership where
  members := [member1 name]
  ids := List.nodup_singleton _
  addresses := List.nodup_singleton _

/-- The member `infra1` is listed under the name `etcd1` to the host that joins. -/
theorem join_lists_members_fails :
    let etcd := exampleGroup (some "infra1")
    let ms := exampleFirst "infra1"
    Registered etcd ms ∧ (etcd.hosts.map (etcdMemberName etcd.hosts)).Nodup ∧
      ∃ joins s, checkAndJoin longerId etcd.hosts ms = some (joins, s) ∧
        ¬ ∀ j ∈ joins, j.initialCluster.Perm
          (j.present.members.map Member.entry ++ [ownEntry etcd.hosts j.host]) := by
  exact ⟨by decide +kernel, by decide +kernel, _, _, rfl, by decide +kernel⟩

/-- With names from the places both hosts are listed under their own names. -/
theorem join_lists_members_two_hosts :
    ∃ joins s, checkAndJoin longerId (exampleGroup none).hosts (exampleFirst "etcd1") =
        some (joins, s) ∧
      joins.map Join.host =
        (exampleGroup none).hosts.filter (fun h => ¬ IsMember (exampleFirst "etcd1") h) ∧
      ∀ j ∈ joins, j.initialCluster.Perm
        (j.present.members.map Member.entry ++ [ownEntry (exampleGroup none).hosts j.host]) := by
  obtain ⟨joins, s, hrun, hiff⟩ := join_lists_members longerId (exampleGroup none)
    (show Registered (exampleGroup none) (exampleFirst "etcd1") by decide +kernel)
  refine ⟨joins, s, hrun, hiff.2 ⟨by decide +kernel, ?_⟩⟩
  intro before last heq
  have hmissing : (exampleGroup none).missing (exampleFirst "etcd1") =
      [] ++ [(exampleGroup none).hosts[1]] := by decide +kernel
  obtain ⟨rfl, -⟩ := List.append_inj' (heq.symm.trans hmissing) rfl
  exact ⟨by decide +kernel, nofun⟩

end Kubespray
