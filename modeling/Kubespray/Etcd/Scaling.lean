import Kubespray.Etcd.JoinMember
import Kubespray.Inventory.AddressRuns

/-!
# Scaling etcd with the inventory

The inventory builder and the role `etcd` together: an inventory is created from addresses, the role
forms a cluster of its etcd group, and then, in any order, addresses are added to the inventory, the
role runs, or stops between two joins, and members are removed from the cluster. The name of a
member is the place of its host in the group. Additions leave the places as they are, so every
member stays registered under the name of its host (`Scaled`), and a run of the role gives each
host that joins an initial cluster of exactly the members that are there (`etcd_scales`).
-/

namespace Kubespray

open Py

/-! ## The etcd hosts of an inventory -/

/-- The address with this text. -/
def Address.ofText (text : String) : Option Address :=
  if h : text ≠ "" ∧ text.toList.all isAddressChar = true then some ⟨text, h.1, h.2⟩ else none

/-- A variable of a host that is an address. -/
def addressVar (opts : Value) (key : String) : Option Address :=
  match opts.getItem key with
  | .ok (.str text) => Address.ofText text
  | _ => none

/-- The host of this name with the variables that the inventory gives it. -/
def etcdHostOf (fallbackIps : String → Address) (hosts : List (String × Value)) (name : String) :
    EtcdHost where
  name := name
  ip := (Assoc.lookup name hosts).bind fun opts => addressVar opts "ip"
  accessIp := (Assoc.lookup name hosts).bind fun opts => addressVar opts "access_ip"
  fallbackIp := fallbackIps name

/-- `groups['etcd']`. -/
def etcdHostsOf (fallbackIps : String → Address) (yamlConfig : Value) : List EtcdHost :=
  (members yamlConfig "etcd").map (etcdHostOf fallbackIps (hostsOf yamlConfig))

/-! ## A new cluster -/

/-- `etcd_peer_addresses` of a host and its place. -/
def peerEntry (p : EtcdHost × Nat) : PeerEntry :=
  ⟨p.1.ownMemberName.getD ("etcd" ++ toString p.2),
    peerUrl (p.1.ownAccessAddress.getD (p.1.ip.getD p.1.fallbackIp))⟩

/-- `etcd_peer_addresses`, the value of `ETCD_INITIAL_CLUSTER`. -/
def etcdPeerAddresses (etcd : List EtcdHost) : List PeerEntry := (etcd.zipIdx 1).map peerEntry

/-- No members. -/
def Membership.empty : Membership where
  members := []
  ids := .nil
  addresses := .nil

section
variable (newId : ∀ ms, FreshId ms) (etcd : List EtcdHost)

/-- The host has a member, which is started under its name. -/
def memberStarts (ms : Membership) (h : EtcdHost) : Membership :=
  (memberAdd newId h ms).start (etcdMemberName etcd h) h.etcdAccessAddress

/-- `Ensure etcd is running` on all hosts of the group. Where there is a cluster, it stays as it is.
Else the state of the initial cluster is `new`: etcd starts on a host if the initial cluster has an
entry of the host's name and peer URL, and the hosts become the members. -/
def ensureRunning (cluster : Option Membership) : Option Membership :=
  match cluster with
  | some ms => some ms
  | none =>
    if ∀ h ∈ etcd, ownEntry etcd h ∈ etcdPeerAddresses etcd then
      some (etcd.foldl (memberStarts newId etcd) .empty)
    else none

/-- `configure.yml` until the joins of the first `reached` hosts of the group. -/
def configureEtcd (reached : Nat) (cluster : Option Membership) :
    Option (List Join × JoinState) := do
  let ms ← ensureRunning newId etcd cluster
  joinLoop newId etcd (etcd.take reached)
    { membership := ms, inCluster := etcd.filter (memberInCluster ms) }

end

/-! ## The cluster and its inventory -/

/-- The document of the inventory and the cluster, once there is one. -/
structure ScalingState where
  inventory : Value
  cluster : Option Membership

/-- What happens to them. -/
inductive ScalingEvent where
  /-- The builder is run with `add` and addresses. -/
  | add (ips : List String)
  /-- The role `etcd` is run, until the joins of the first hosts. -/
  | configure (reached : Nat)
  /-- The member with this id is removed from the cluster. -/
  | remove (id : String)

/-- The text is an address, and the builder takes it for one. -/
def IsHostAddress (env : Env) (text : String) : Prop :=
  AddArg.IsAddressText env text ∧ text.toList.all isAddressChar = true

instance (env : Env) (text : String) : Decidable (IsHostAddress env text) :=
  inferInstanceAs (Decidable (_ ∧ _))

/-- The histories of a cluster whose inventory is created from addresses and only added to. -/
def scaling (env : Env) (fallbackIps : String → Address) (newId : ∀ ms, FreshId ms) :
    TransitionSystem ScalingState ScalingEvent where
  init s := s.cluster = none ∧ ∃ ips, ips ≠ [] ∧ (∀ ip ∈ ips, IsHostAddress env ip) ∧
    run env ips .absent = (.ok (), .yaml s.inventory)
  step s e s' :=
    match e with
    | .add ips => (∀ ip ∈ ips, IsHostAddress env ip) ∧ s'.cluster = s.cluster ∧
        run env ("add" :: ips) (.yaml s.inventory) = (.ok (), .yaml s'.inventory)
    | .configure reached => s'.inventory = s.inventory ∧ ∃ joins t,
        configureEtcd newId (etcdHostsOf fallbackIps s.inventory) reached s.cluster =
          some (joins, t) ∧ s'.cluster = some t.membership
    | .remove id => s'.inventory = s.inventory ∧ s'.cluster = s.cluster.map (·.remove id)

/-! ## The group of an inventory of addresses -/

section
variable {env : Env} {inv inv' : Inventory} {fallbackIps : String → Address} {name : String}

/-- The inventories of such histories. -/
abbrev OfHostAddresses (env : Env) (inv : Inventory) : Prop :=
  OfAddresses env (IsHostAddress env) inv

theorem Address.ofText_of_isHostAddress {text : String} (h : IsHostAddress env text) :
    ∃ a, Address.ofText text = some a ∧ a.text = text := by
  obtain ⟨⟨-, -, hfirst⟩, hall⟩ := h
  have hne : text ≠ "" := by
    rintro rfl
    cases hfirst
  exact ⟨_, dif_pos ⟨hne, hall⟩, rfl⟩

/-- A host of the inventory has its ip for all addresses. -/
theorem OfAddresses.host (fallbackIps : String → Address) (hinv : OfHostAddresses env inv)
    (hname : name ∈ inv.hosts.keys) :
    ∃ a : Address, (name, hostOpts a.text a.text) ∈ inv.hosts.items ∧
      etcdHostOf fallbackIps inv.hosts.items name =
        { name, ip := some a, accessIp := some a, fallbackIp := fallbackIps name } := by
  obtain ⟨p, hp, rfl⟩ := List.mem_map.1 hname
  obtain ⟨ip, hip, hopts⟩ := hinv.address p hp
  obtain ⟨a, ha, rfl⟩ := Address.ofText_of_isHostAddress hip
  have hitem : (p.1, hostOpts a.text a.text) ∈ inv.hosts.items := hopts ▸ hp
  refine ⟨a, hitem, ?_⟩
  have hvar : addressVar (hostOpts a.text a.text) "ip" = some a := ha
  have haccess : addressVar (hostOpts a.text a.text) "access_ip" = some a := ha
  rw [etcdHostOf, Assoc.lookup_of_mem inv.hosts.nodup hitem, Option.bind_some, hvar,
    Option.bind_some, haccess]

theorem etcdHostsOf_toValue : etcdHostsOf fallbackIps inv.toValue =
    (inv.group .etcd).keys.map (etcdHostOf fallbackIps inv.hosts.items) := by
  rw [etcdHostsOf, members_etcd, hostsOf_toValue]

/-- The etcd group of an inventory of addresses. -/
def OfAddresses.etcdGroup (fallbackIps : String → Address) (hinv : OfHostAddresses env inv) :
    EtcdGroup where
  hosts := etcdHostsOf fallbackIps inv.toValue
  names := by
    rw [etcdHostsOf_toValue, List.map_map]
    exact (List.map_id _).symm ▸ (inv.group .etcd).nodup_keys
  addresses := by
    rw [etcdHostsOf_toValue, List.map_map]
    refine List.Nodup.map_on (fun x hx y hy heq => ?_) (inv.group .etcd).nodup_keys
    obtain ⟨a, ha, hxa⟩ :=
      hinv.host fallbackIps (hinv.wellFormed.members .etcd x hx)
    obtain ⟨b, hb, hyb⟩ :=
      hinv.host fallbackIps (hinv.wellFormed.members .etcd y hy)
    rw [Function.comp_apply, Function.comp_apply, hxa, hyb] at heq
    have hab : a = b := heq
    subst hab
    have hip : hasIp (hostOpts a.text a.text) a.text = true := by simp
    exact congrArg Prod.fst (hinv.distinct.eq_of_hasIp ha hb hip hip)

end

/-! ## Members and their hosts -/

section
variable {newId : ∀ ms, FreshId ms} {etcd etcd' : EtcdGroup} {hosts items : List EtcdHost}
  {ms : Membership} {h g : EtcdHost} {m : Member} {joins : List Join} {s s' : JoinState}

/-- The name of a host stays the same when hosts come behind those of the group. -/
theorem etcdMemberName_mono (hpre : etcd.hosts <+: etcd'.hosts) (hh : h ∈ etcd.hosts) :
    etcdMemberName etcd'.hosts h = etcdMemberName etcd.hosts h := by
  have hidx : etcd'.hosts.idxOf h = etcd.hosts.idxOf h := by
    obtain ⟨rest, hrest⟩ := hpre
    rw [← hrest, List.idxOf_append_of_mem hh]
  rw [etcdMemberName, join_printMemberName etcd'.names (hpre.subset hh), hidx, etcdMemberName,
    join_printMemberName etcd.names hh]

/-- So the members stay registered. -/
theorem Registered.mono (hreg : Registered etcd ms) (hpre : etcd.hosts <+: etcd'.hosts) :
    Registered etcd' ms := by
  intro m hm
  obtain ⟨hstarted, h, hh, hname, haddress⟩ := hreg m hm
  exact ⟨hstarted, h, hpre.subset hh, hname.trans (etcdMemberName_mono hpre hh).symm, haddress⟩

theorem Registered.remove (hreg : Registered etcd ms) (id : String) :
    Registered etcd (ms.remove id) := fun m hm => hreg m (List.mem_of_mem_filter hm)

/-- The members after a host has started. -/
theorem mem_memberStarts (hm : m ∈ (memberStarts newId hosts ms h).members) :
    m ∈ ms.members ∨ m.started = true ∧ m.name = etcdMemberName hosts h ∧
      m.address = h.etcdAccessAddress := by
  rw [memberStarts, Membership.members_start] at hm
  obtain ⟨m', hm', rfl⟩ := List.mem_map.1 hm
  split
  · next heq => exact .inr ⟨rfl, rfl, heq⟩
  · next hne =>
    left
    rw [memberAdd, Membership.add] at hm'
    split at hm'
    · exact hm'
    · rcases List.mem_append.1 hm' with hm' | hm'
      · exact hm'
      · cases List.mem_singleton.1 hm'
        exact absurd rfl hne

theorem isMember_memberStarts (hmem : g = h ∨ IsMember ms g) :
    IsMember (memberStarts newId hosts ms h) g := by
  have haddresses : (memberStarts newId hosts ms h).members.map Member.address =
      (memberAdd newId h ms).members.map Member.address := by
    rw [memberStarts, Membership.members_start, List.map_map]
    refine List.map_congr_left fun m _ => ?_
    rw [Function.comp_apply]
    split <;> rfl
  rw [IsMember, haddresses]
  rcases hmem with rfl | hmem
  · exact isMember_memberAdd newId g ms
  · rw [memberAdd, Membership.add]
    split
    · exact hmem
    · rw [List.map_append]
      exact List.mem_append_left _ hmem

/-- A host of the group starts under its own name. -/
theorem Registered.starts (newId : ∀ ms, FreshId ms) (hreg : Registered etcd ms)
    (hh : h ∈ etcd.hosts) :
    Registered etcd (memberStarts newId etcd.hosts ms h) := by
  intro m hm
  rcases mem_memberStarts hm with hm | ⟨hstarted, hname, haddress⟩
  · exact hreg m hm
  · exact ⟨hstarted, h, hh, hname, haddress⟩

/-- All hosts of a new cluster are members, under their own names. -/
theorem registered_foldl (newId : ∀ ms, FreshId ms) (hreg : Registered etcd ms)
    (hitems : items ⊆ etcd.hosts) :
    Registered etcd (items.foldl (memberStarts newId etcd.hosts) ms) ∧
      ∀ h, h ∈ items ∨ IsMember ms h →
        IsMember (items.foldl (memberStarts newId etcd.hosts) ms) h := by
  induction items generalizing ms with
  | nil => exact ⟨hreg, fun h hh => hh.resolve_left List.not_mem_nil⟩
  | cons item items ih =>
    obtain ⟨hitem, hitems⟩ := List.cons_subset.1 hitems
    obtain ⟨hreg', hmem⟩ := ih (hreg.starts newId hitem) hitems
    refine ⟨hreg', fun h hh => hmem h ?_⟩
    rcases hh with hh | hh
    · rcases List.mem_cons.1 hh with rfl | hh
      · exact .inr (isMember_memberStarts (.inl rfl))
      · exact .inl hh
    · exact .inr (isMember_memberStarts (.inr hh))

/-- What the loop does after a host that is not found in the cluster. -/
theorem joinLoop_of_cons (hin : h ∉ s.inCluster)
    (hloop : joinLoop newId hosts (h :: items) s = some (joins, s')) :
    ∃ joins', joinLoop newId hosts items (s.join newId hosts h) = some (joins', s') := by
  rw [joinLoop, if_neg hin, joinEtcdMember_eq, Option.bind_eq_bind, Option.bind_some] at hloop
  obtain ⟨⟨joins', t⟩, hrest, hret⟩ := Option.bind_eq_some_iff.1 hloop
  cases hret
  exact ⟨joins', hrest⟩

/-- What every join keeps, the loop keeps. -/
theorem joinLoop_invariant {P : JoinState → Prop} (hs : P s)
    (hP : ∀ t, ∀ h ∈ items, P t → P (t.join newId hosts h))
    (hloop : joinLoop newId hosts items s = some (joins, s')) : P s' := by
  induction items generalizing s joins with
  | nil =>
    cases hloop
    exact hs
  | cons item items ih =>
    have hP' : ∀ t, ∀ h ∈ items, P t → P (t.join newId hosts h) := fun t h hh =>
      hP t h (List.mem_cons_of_mem _ hh)
    by_cases hin : item ∈ s.inCluster
    · rw [joinLoop_cons_of_mem hin] at hloop
      exact ih hs hP' hloop
    · obtain ⟨joins', hrest⟩ := joinLoop_of_cons hin hloop
      exact ih (hP s item List.mem_cons_self hs) hP' hrest

/-- The members stay registered, however many hosts the loop goes through. -/
theorem Registered.throughLoop (hreg : Registered etcd s.membership) (hitems : items ⊆ etcd.hosts)
    (hloop : joinLoop newId etcd.hosts items s = some (joins, s')) :
    Registered etcd s'.membership :=
  joinLoop_invariant (P := fun t => Registered etcd t.membership) hreg
    (fun _ _ hh ht => ht.starts newId (hitems hh)) hloop

/-- After the loop every host that it has gone through is found in the cluster. -/
theorem mem_inCluster_of_joinLoop (hh : h ∈ items)
    (hloop : joinLoop newId hosts items s = some (joins, s')) : h ∈ s'.inCluster := by
  induction items generalizing s joins with
  | nil => cases hh
  | cons item items ih =>
    -- a host stays in the list of those that are found
    have hstays : ∀ {t joins}, h ∈ t.inCluster →
        joinLoop newId hosts items t = some (joins, s') → h ∈ s'.inCluster := fun ht hloop =>
      joinLoop_invariant (P := fun t => h ∈ t.inCluster) ht
        (fun _ _ _ ht => List.mem_cons_of_mem _ ht) hloop
    by_cases hin : item ∈ s.inCluster
    · rw [joinLoop_cons_of_mem hin] at hloop
      rcases List.mem_cons.1 hh with rfl | hh
      · exact hstays hin hloop
      · exact ih hh hloop
    · obtain ⟨joins', hrest⟩ := joinLoop_of_cons hin hloop
      rcases List.mem_cons.1 hh with rfl | hh
      · exact hstays List.mem_cons_self hrest
      · exact ih hh hrest

/-- The hosts found in the cluster have members, if those found before the loop have. -/
theorem isMember_of_joinLoop (hfound : ∀ h ∈ s.inCluster, IsMember s.membership h)
    (hloop : joinLoop newId hosts items s = some (joins, s')) :
    ∀ h ∈ s'.inCluster, IsMember s'.membership h := by
  refine joinLoop_invariant (P := fun t => ∀ h ∈ t.inCluster, IsMember t.membership h) hfound
    (fun t item _ ht h hh => ?_) hloop
  have hstart : (t.join newId hosts item).membership = memberStarts newId hosts t.membership item :=
    rfl
  rw [hstart]
  rcases List.mem_cons.1 hh with rfl | hh
  · exact isMember_memberStarts (.inl rfl)
  · exact isMember_memberStarts (.inr (ht h hh))

/-- When all hosts of the group have members, the members are the hosts. -/
theorem Registered.entries_perm (hreg : Registered etcd ms)
    (hall : ∀ h ∈ etcd.hosts, IsMember ms h) :
    (ms.members.map Member.entry).Perm (etcd.hosts.map (ownEntry etcd.hosts)) := by
  have hmembers : (ms.members.map Member.entry).Nodup := by
    refine .of_map PeerEntry.url ?_
    rw [List.map_map]
    have hurls := ms.addresses.map fun _ _ => peerUrl_inj.1
    rwa [List.map_map] at hurls
  have hhosts : (etcd.hosts.map (ownEntry etcd.hosts)).Nodup := by
    refine .of_map PeerEntry.url ?_
    rw [List.map_map]
    have hurls := etcd.addresses.map fun _ _ => peerUrl_inj.1
    rwa [List.map_map] at hurls
  refine (List.perm_ext_iff_of_nodup hmembers hhosts).2 fun e => ?_
  rw [List.mem_map, List.mem_map]
  constructor
  · rintro ⟨m, hm, rfl⟩
    obtain ⟨-, h, hh, hname, haddress⟩ := hreg m hm
    exact ⟨h, hh, by rw [Member.entry, ownEntry, hname, haddress]⟩
  · rintro ⟨h, hh, rfl⟩
    obtain ⟨m, hm, hma⟩ := List.mem_map.1 (hall h hh)
    obtain ⟨-, h', hh', hname, haddress⟩ := hreg m hm
    have heq : h = h' := etcd.eq_of_address hh hh' (hma.symm.trans haddress)
    exact ⟨m, hm, by rw [Member.entry, ownEntry, hname, haddress, heq]⟩

/-- A run of the role on registered members, where the listed entries of the hosts are their own and
the check finds only hosts that have a member. -/
theorem checkAndJoin_registered (newId : ∀ ms, FreshId ms) (hreg : Registered etcd ms)
    (hlisted : ∀ h ∈ etcd.hosts, etcd.listed h = ownEntry etcd.hosts h)
    (hnone : ∀ h ∈ etcd.missing ms, memberInCluster ms h = false) :
    ∃ joins s, checkAndJoin newId etcd.hosts ms = some (joins, s) ∧
      joins.map Join.host = etcd.missing ms ∧
      (∀ j ∈ joins, j.initialCluster.Perm
        (j.present.members.map Member.entry ++ [ownEntry etcd.hosts j.host])) ∧
      (s.membership.members.map Member.entry).Perm (etcd.hosts.map (ownEntry etcd.hosts)) := by
  obtain ⟨joins, s, hloop, hhosts⟩ := joinLoop_hosts newId etcd.hosts etcd.nodup
    { membership := ms, inCluster := etcd.hosts.filter (memberInCluster ms) }
  refine ⟨joins, s, hloop, hhosts.trans ((notFound_eq_missing_iff etcd ms).2 hnone),
    fun j hj => ?_, ?_⟩
  · obtain ⟨before, after, heq, hiff⟩ := joinLoop_joins (joinInv_init hreg hnone)
      (fun g hg => absurd hg List.not_mem_nil) (fun g hg => ⟨hg, List.not_mem_nil⟩) etcd.nodup
      hloop hj
    refine hiff.2 (.of_eq (List.map_congr_left fun g hg => hlisted g ?_))
    rcases List.mem_append.1 hg with hg | hg
    · exact List.mem_of_mem_filter hg
    · have hmem : g ∈ etcd.hosts.filter fun h => ¬ IsMember ms h := by
        rw [heq]
        exact List.mem_append_left _ hg
      exact List.mem_of_mem_filter hmem
  · have hfound : ∀ h ∈ etcd.hosts.filter (memberInCluster ms), IsMember ms h := fun h hh =>
      (mem_found_iff hnone (List.mem_of_mem_filter hh)).1 hh
    exact (hreg.throughLoop (List.Subset.refl _) hloop).entries_perm fun h hh =>
      isMember_of_joinLoop hfound hloop h (mem_inCluster_of_joinLoop hh hloop)

end

/-! ## The group of an inventory in the histories -/

section
variable {env : Env} {inv inv' : Inventory} {fallbackIps : String → Address}
  {newId : ∀ ms, FreshId ms} {h : EtcdHost} {cluster : Option Membership} {s s' : ScalingState}

/-- When the inventory grows, the new etcd hosts come behind those that are there, which keep their
variables. -/
theorem etcdGroup_mono (hinv : OfHostAddresses env inv) (hinv' : OfHostAddresses env inv')
    (hext : inv'.Extends inv) :
    (hinv.etcdGroup fallbackIps).hosts <+: (hinv'.etcdGroup fallbackIps).hosts := by
  have hsame : (inv.group .etcd).keys.map (etcdHostOf fallbackIps inv.hosts.items) =
      (inv.group .etcd).keys.map (etcdHostOf fallbackIps inv'.hosts.items) := by
    refine List.map_congr_left fun name hname => ?_
    obtain ⟨a, hitem, -⟩ :=
      hinv.host fallbackIps (hinv.wellFormed.members .etcd name hname)
    rw [etcdHostOf, etcdHostOf, Assoc.lookup_of_mem inv.hosts.nodup hitem,
      Assoc.lookup_of_mem inv'.hosts.nodup (hext.hosts.subset hitem)]
  change etcdHostsOf fallbackIps inv.toValue <+: etcdHostsOf fallbackIps inv'.toValue
  rw [etcdHostsOf_toValue, etcdHostsOf_toValue, hsame]
  exact (hext.group .etcd).map _

/-- The entries that are listed for the hosts are their own. -/
theorem listed_etcdGroup (hinv : OfHostAddresses env inv)
    (hh : h ∈ (hinv.etcdGroup fallbackIps).hosts) :
    (hinv.etcdGroup fallbackIps).listed h = ownEntry (hinv.etcdGroup fallbackIps).hosts h := by
  refine (listed_eq_ownEntry_iff _ hh).2 ?_
  have hmem : h ∈ etcdHostsOf fallbackIps inv.toValue := hh
  rw [etcdHostsOf_toValue] at hmem
  obtain ⟨name, hname, rfl⟩ := List.mem_map.1 hmem
  obtain ⟨a, -, hhost⟩ :=
    hinv.host fallbackIps (hinv.wellFormed.members .etcd name hname)
  rw [hhost]
  constructor
  · intro name hm
    cases hm
  · intro _ b hb
    cases hb
    rfl

/-- So are the entries of the initial cluster of a new one. -/
theorem ownEntry_mem_etcdPeerAddresses {etcd : EtcdGroup} (hh : h ∈ etcd.hosts)
    (hlisted : etcd.listed h = ownEntry etcd.hosts h) :
    ownEntry etcd.hosts h ∈ etcdPeerAddresses etcd.hosts := by
  have hplace : (h, etcd.hosts.idxOf h + 1) ∈ etcd.hosts.zipIdx 1 := by
    rw [List.mk_mem_zipIdx_iff_le_and_getElem?_sub, Nat.add_sub_cancel]
    exact ⟨Nat.le_add_left 1 _, List.getElem?_idxOf hh⟩
  refine List.mem_map.2 ⟨_, hplace, ?_⟩
  have hname : h.ownMemberName.getD ("etcd" ++ toString (etcd.hosts.idxOf h + 1)) =
      etcdMemberName etcd.hosts h := (join_printMemberName etcd.names hh 1).symm
  rw [peerEntry, hname]
  exact congrArg (PeerEntry.mk _) (congrArg PeerEntry.url hlisted)

/-- The cluster that the role finds or forms. -/
theorem ensureRunning_registered (newId : ∀ ms, FreshId ms) (hinv : OfHostAddresses env inv)
    (hreg : ∀ ms ∈ cluster, Registered (hinv.etcdGroup fallbackIps) ms) :
    ∃ ms, ensureRunning newId (hinv.etcdGroup fallbackIps).hosts cluster = some ms ∧
      Registered (hinv.etcdGroup fallbackIps) ms ∧
      (cluster = none → ∀ h ∈ (hinv.etcdGroup fallbackIps).hosts, IsMember ms h) := by
  cases cluster with
  | some ms => exact ⟨ms, rfl, hreg ms rfl, fun hnone => by cases hnone⟩
  | none =>
    have hstart : ∀ h ∈ (hinv.etcdGroup fallbackIps).hosts,
        ownEntry (hinv.etcdGroup fallbackIps).hosts h ∈
          etcdPeerAddresses (hinv.etcdGroup fallbackIps).hosts :=
      fun h hh => ownEntry_mem_etcdPeerAddresses hh (listed_etcdGroup hinv hh)
    have hempty : Registered (hinv.etcdGroup fallbackIps) .empty :=
      fun m hm => absurd hm List.not_mem_nil
    obtain ⟨hreg', hmem⟩ := registered_foldl newId hempty (List.Subset.refl _)
    exact ⟨_, if_pos hstart, hreg', fun _ h hh => hmem h (.inl hh)⟩

/-- What holds in every history: the inventory is of addresses, and the members of the cluster are
registered under the names and the URLs of its etcd hosts. -/
def Scaled (env : Env) (fallbackIps : String → Address) (s : ScalingState) : Prop :=
  ∃ (inv : Inventory) (hinv : OfHostAddresses env inv), s.inventory = inv.toValue ∧
    ∀ ms ∈ s.cluster, Registered (hinv.etcdGroup fallbackIps) ms

/-- A run of the role, which may stop between two joins. -/
theorem configureEtcd_registered {reached : Nat} {joins : List Join} {t : JoinState}
    (hinv : OfHostAddresses env inv)
    (hreg : ∀ ms ∈ cluster, Registered (hinv.etcdGroup fallbackIps) ms)
    (h : configureEtcd newId (hinv.etcdGroup fallbackIps).hosts reached cluster =
      some (joins, t)) : Registered (hinv.etcdGroup fallbackIps) t.membership := by
  obtain ⟨ms, hms, hregs, -⟩ := ensureRunning_registered newId hinv hreg
  rw [configureEtcd, hms, Option.bind_eq_bind, Option.bind_some] at h
  exact Registered.throughLoop (s := { membership := ms, inCluster := _ }) hregs
    (List.take_subset _ _) h

variable (hreal : env.useRealHostname = false) (hdot : '.' ∉ env.hostPrefix.toList)
  (hpre : StartsWithLetter env env.hostPrefix)
include hreal hdot hpre

/-- Every step keeps it. -/
theorem Scaled.step {e : ScalingEvent} (hs : Scaled env fallbackIps s)
    (hstep : (scaling env fallbackIps newId).step s e s') : Scaled env fallbackIps s' := by
  obtain ⟨inv, hinv, hdoc, hreg⟩ := hs
  cases e with
  | add ips =>
    obtain ⟨hips, hcluster, hrun⟩ := hstep
    rw [hdoc] at hrun
    obtain ⟨inv', hdoc', hinv', hext⟩ :=
      hinv.grows hreal hdot hpre (fun ip hip => ⟨(hips ip hip).1, hips ip hip⟩) hrun
    refine ⟨inv', hinv', hdoc', fun ms hms => ?_⟩
    rw [hcluster] at hms
    exact (hreg ms hms).mono (etcdGroup_mono hinv hinv' hext)
  | configure reached =>
    obtain ⟨hsame, joins, t, hrun, hcluster⟩ := hstep
    rw [hdoc] at hrun
    refine ⟨inv, hinv, hsame.trans hdoc, fun ms hms => ?_⟩
    rw [hcluster] at hms
    cases hms
    exact configureEtcd_registered hinv hreg hrun
  | remove id =>
    obtain ⟨hsame, hcluster⟩ := hstep
    refine ⟨inv, hinv, hsame.trans hdoc, fun ms hms => ?_⟩
    rw [hcluster] at hms
    obtain ⟨ms', hms', rfl⟩ := Option.map_eq_some_iff.1 hms
    exact (hreg ms' hms').remove id

theorem scaled_of_reachable (hr : (scaling env fallbackIps newId).Reachable s) :
    Scaled env fallbackIps s := by
  refine hr.invariant (fun s hinit => ?_) fun s e s' _ hs hstep =>
    hs.step hreal hdot hpre hstep
  obtain ⟨hnone, ips, hne, hips, hrun⟩ := hinit
  obtain ⟨inv, hdoc, hinv⟩ := OfAddresses.creates hreal hdot hpre hne
    (fun ip hip => ⟨(hips ip hip).1, hips ip hip⟩) hrun
  refine ⟨inv, hinv, hdoc, fun ms hms => ?_⟩
  rw [hnone] at hms
  cases hms

end

/-- In every history of a cluster whose inventory is created from addresses and only added to, the
role runs through when no line of the member list matches the address of a host without a member:
it forms the cluster, or joins exactly the hosts without a member, each with an initial cluster of
the members that are there and itself, under their own names and URLs. It leaves the hosts of the
group as the members. -/
theorem etcd_scales {env : Env} {fallbackIps : String → Address} {newId : ∀ ms, FreshId ms}
    {s : ScalingState} (hreal : env.useRealHostname = false) (hdot : '.' ∉ env.hostPrefix.toList)
    (hpre : StartsWithLetter env env.hostPrefix)
    (hr : (scaling env fallbackIps newId).Reachable s)
    (hfind : ∀ ms ∈ s.cluster, ∀ h ∈ etcdHostsOf fallbackIps s.inventory, ¬ IsMember ms h →
      ∀ line ∈ ms.memberList, Grep.selects h.etcdAccessAddress.text line = false) :
    let etcd := etcdHostsOf fallbackIps s.inventory
    ∃ ms joins t, ensureRunning newId etcd s.cluster = some ms ∧
      checkAndJoin newId etcd ms = some (joins, t) ∧
      joins.map Join.host = etcd.filter (fun h => ¬ IsMember ms h) ∧
      (∀ j ∈ joins, j.initialCluster.Perm
        (j.present.members.map Member.entry ++ [ownEntry etcd j.host])) ∧
      (t.membership.members.map Member.entry).Perm (etcd.map (ownEntry etcd)) := by
  obtain ⟨inv, hinv, hdoc, hreg⟩ := scaled_of_reachable hreal hdot hpre hr
  rw [hdoc] at hfind ⊢
  obtain ⟨ms, hms, hregs, hnew⟩ := ensureRunning_registered newId hinv hreg
  have hnone : ∀ h ∈ (hinv.etcdGroup fallbackIps).missing ms, memberInCluster ms h = false := by
    intro h hh
    obtain ⟨hh, hmissing⟩ := List.mem_filter.1 hh
    have hmissing := of_decide_eq_true hmissing
    cases hcluster : s.cluster with
    | none => exact absurd (hnew hcluster h hh) hmissing
    | some ms' =>
      rw [hcluster] at hms
      cases hms
      rw [← Bool.not_eq_true, memberInCluster, List.any_eq_true]
      rintro ⟨line, hline, hselects⟩
      rw [hfind ms hcluster h hh hmissing line hline] at hselects
      cases hselects
  obtain ⟨joins, t, hrun, hjoins, hlists, hmembers⟩ := checkAndJoin_registered newId
    hregs (fun h hh => listed_etcdGroup hinv hh) hnone
  exact ⟨ms, joins, t, hms, hrun, hjoins, hlists, hmembers⟩

/-- A cluster is formed of one host, and two more are added to the inventory. -/
theorem etcd_scales_to_three :
    ∃ (cfg : Value) (first : Membership),
      let etcd := etcdHostsOf (fun _ => address1) cfg
      etcd.map EtcdHost.name = ["node1", "node2", "node3"] ∧
      ∃ ms joins t, ensureRunning longerId etcd (some first) = some ms ∧
        checkAndJoin longerId etcd ms = some (joins, t) ∧
        joins.map Join.host = etcd.filter (fun h => ¬ IsMember ms h) ∧
        (∀ j ∈ joins, j.initialCluster.Perm
          (j.present.members.map Member.entry ++ [ownEntry etcd j.host])) ∧
        (t.membership.members.map Member.entry).Perm (etcd.map (ownEntry etcd)) := by
  let inv := Inventory.fresh.place {} ⟨[("node1", hostOpts "10.0.0.1" "10.0.0.1")], by decide⟩
  let inv' := inv.place {} ⟨[("node1", hostOpts "10.0.0.1" "10.0.0.1"),
    ("node2", hostOpts "10.0.0.2" "10.0.0.2"), ("node3", hostOpts "10.0.0.3" "10.0.0.3")],
    by decide⟩
  have hb : builds {} ["10.0.0.1"] .absent =
      .ok (Inventory.fresh.toValue, ⟨[("node1", hostOpts "10.0.0.1" "10.0.0.1")], by decide⟩) := rfl
  have hb' : builds {} ["add", "10.0.0.2", "10.0.0.3"] (.yaml inv.toValue) =
      .ok (inv.toValue, ⟨[("node1", hostOpts "10.0.0.1" "10.0.0.1"),
        ("node2", hostOpts "10.0.0.2" "10.0.0.2"), ("node3", hostOpts "10.0.0.3" "10.0.0.3")],
        by decide⟩) := rfl
  let formed := configureEtcd longerId (etcdHostsOf (fun _ => address1) inv.toValue) 1 none
  let first := (formed.map fun p => p.2.membership).getD .empty
  obtain ⟨⟨joins, t⟩, hrun⟩ : ∃ p, formed = some p := Option.isSome_iff_exists.1 (by decide +kernel)
  have hfirst : some first = some t.membership := by simp only [first, hrun]; rfl
  have hcreated : (scaling {} (fun _ => address1) longerId).Reachable ⟨inv.toValue, none⟩ :=
    .init ⟨rfl, ["10.0.0.1"], by decide, by decide +kernel, run_of_builds hb⟩
  have hformed : (scaling {} (fun _ => address1) longerId).Reachable ⟨inv.toValue, some first⟩ :=
    .step (a := .configure 1) hcreated ⟨rfl, joins, t, hrun, hfirst⟩
  have hr : (scaling {} (fun _ => address1) longerId).Reachable ⟨inv'.toValue, some first⟩ :=
    .step (a := .add ["10.0.0.2", "10.0.0.3"]) hformed
      ⟨by decide +kernel, rfl, run_of_builds hb'⟩
  have hfind : ∀ h ∈ etcdHostsOf (fun _ => address1) inv'.toValue, ¬ IsMember first h →
      ∀ line ∈ first.memberList, Grep.selects h.etcdAccessAddress.text line = false := by
    decide +kernel
  refine ⟨inv'.toValue, first, by decide +kernel, ?_⟩
  refine etcd_scales rfl (by decide) (rfl : StartsWithLetter {} "node") hr fun ms hms => ?_
  cases hms
  exact hfind

end Kubespray
