import Kubespray.Inventory.Positions

/-!
# Runs over addresses

Inventories that are created from addresses and extended by addresses only. Their hosts have
distinct ips, which are their access ips too (`OfAddresses`), and a further run `add` puts new hosts
behind those that are there, in the inventory and in each group (`OfAddresses.built`,
`OfAddresses.grows`).
-/

namespace Kubespray

open Py

/-- An inventory that is built from addresses for which `P` holds. -/
structure OfAddresses (env : Env) (P : String → Prop) (inv : Inventory) : Prop where
  wellFormed : inv.WellFormed
  letter : ∀ k ∈ inv.hosts.keys, StartsWithLetter env k
  /-- The access ip of a host is its ip. -/
  address : ∀ p ∈ inv.hosts.items, ∃ ip, P ip ∧ p.2 = hostOpts ip ip
  distinct : IpsDistinct inv.hosts

/-- One inventory continues another: its hosts and the members of its groups come behind those of
the other. -/
structure Inventory.Extends (inv' inv : Inventory) : Prop where
  hosts : inv.hosts.items <+: inv'.hosts.items
  group : ∀ r, (inv.group r).keys <+: (inv'.group r).keys

section
variable {env : Env} {P : String → Prop} {inv : Inventory} {hosts : OrdDict String Value}
  {ips : List String} {cfg' start : Value}

/-- The texts of the arguments that are addresses. -/
theorem AddArg.map_text_ofIps (h : ∀ ip ∈ ips, AddArg.IsAddressText env ip) :
    (AddArg.ofIps env ips h).map AddArg.text = ips := by
  simp [AddArg.ofIps, List.map_pmap, AddArg.ofIp, AddArg.text]

/-- The arguments that are new are among the arguments. -/
theorem AddArg.newArgs_subset (hosts : OrdDict String Value) (args : List (AddArg env)) :
    AddArg.newArgs hosts args ⊆ args := by
  induction args with
  | nil => exact List.nil_subset _
  | cons a args ih =>
    rw [AddArg.newArgs]
    split
    · exact List.subset_cons_of_subset a ih
    · exact List.cons_subset_cons a (List.Subset.trans (List.filter_subset_self _) ih)

/-- A list that starts with all hosts of the inventory is what a run with it writes. -/
theorem place_hosts_of_append (env : Env) {new : List (String × Value)}
    (hnew : hosts.items = inv.hosts.items ++ new) : (inv.place env hosts).hosts = hosts := by
  have hkeep : inv.hosts.filter (Inventory.keeps hosts) = inv.hosts := by
    refine OrdDict.filter_eq_self fun k hk => Inventory.keeps_iff.2 (.inl ?_)
    rw [OrdDict.keys_of_items_eq_append hnew]
    exact List.mem_append_left _ hk
  rw [Inventory.place_hosts, hkeep]
  exact OrdDict.insertAll_of_items_eq_append hnew

namespace OfAddresses

/-- Before the first run. -/
theorem fresh : OfAddresses env P .fresh where
  wellFormed := Inventory.fresh_wellFormed
  letter _ hk := absurd hk List.not_mem_nil
  address _ hp := absurd hp List.not_mem_nil
  distinct := .nil

/-- The host list that addresses build: new hosts behind the old ones. -/
theorem built (add : Bool) {file : ConfigFile} (hreal : env.useRealHostname = false)
    (hdot : '.' ∉ env.hostPrefix.toList) (hpre : StartsWithLetter env env.hostPrefix)
    (hf : Holds file inv) (hbase : OfAddresses env P (inv.base add))
    (hips : ∀ ip ∈ ips, AddArg.IsAddressText env ip ∧ P ip)
    (h : built env add ips file = .ok (start, hosts)) :
    start = (inv.base add).toValue ∧ IpsDistinct hosts ∧
      ∃ new, hosts.items = (inv.base add).hosts.items ++ new ∧
        ∀ p ∈ new, StartsWithLetter env p.1 ∧ ∃ ip, P ip ∧ p.2 = hostOpts ip ip := by
  have htexts := AddArg.map_text_ofIps fun ip hip => (hips ip hip).1
  have haddr : ∀ a ∈ AddArg.ofIps env ips fun ip hip => (hips ip hip).1, a.IsAddress :=
    AddArg.ofIps_isAddress
  generalize hargs : AddArg.ofIps env ips (fun ip hip => (hips ip hip).1) = args at htexts haddr
  have hopts : ∀ a ∈ args, ∃ ip, P ip ∧ a.opts = hostOpts ip ip := by
    intro a ha
    rw [← hargs, AddArg.ofIps] at ha
    obtain ⟨ip, hip, rfl⟩ := List.mem_pmap.1 ha
    exact ⟨ip, (hips ip hip).2, rfl⟩
  rw [← htexts] at h
  obtain ⟨load, changed, highest, s', hload, rfl, hr, hh, hloop, rfl⟩ := built_eq_ok hf h
  rw [loadPreviousConfig_texts haddr] at hload
  rw [range2ips_texts haddr] at hr
  cases hload
  cases hr
  refine ⟨rfl, loop_ipsDistinct hbase.distinct hloop, ?_⟩
  obtain ⟨s'', hloop', hadds⟩ := AddArg.loop_text hreal args
    (s := { allHosts := (inv.base add).hosts, nextHostId := highest + 1 })
    (hasIps_of_opts hbase.wellFormed.opts)
  cases hloop.symm.trans hloop'
  have hitems := (AddArg.adds_newArgs args (inv.base add).hosts (highest + 1)
    (fun a ha => (haddr a ha).name)
    (fun a ha => ⟨fun hm => not_startsWithLetter_of_digit (a.text_first_digit (haddr a ha).name)
      (hbase.letter _ hm), AddArg.text_ne_generatedName (haddr a ha).name hpre⟩)
    fun i hi => generatedName_not_mem hdot hh hi).1
  rw [← hadds] at hitems
  refine ⟨_, hitems, fun p hp => ⟨?_, ?_⟩⟩
  · have hkey := Assoc.mem_keys_of_mem hp
    rw [AddArg.keys_generatedHosts] at hkey
    obtain ⟨i, -, hi⟩ := List.mem_map.1 hkey
    rw [← hi]
    exact AddArg.head?_append hpre
  · obtain ⟨a, ha, hpa⟩ := AddArg.opts_of_mem_generatedHosts hp
    rw [hpa]
    exact hopts a (AddArg.newArgs_subset _ _ ha)

/-- What a run writes from such a list. -/
theorem place {new : List (String × Value)} (h : OfAddresses env P inv)
    (hdistinct : IpsDistinct hosts) (hnew : hosts.items = inv.hosts.items ++ new)
    (hopts : ∀ p ∈ new, StartsWithLetter env p.1 ∧ ∃ ip, P ip ∧ p.2 = hostOpts ip ip) :
    OfAddresses env P (inv.place env hosts) ∧ (inv.place env hosts).Extends inv := by
  have hhosts := place_hosts_of_append env hnew
  have haddress : ∀ p ∈ hosts.items, ∃ ip, P ip ∧ p.2 = hostOpts ip ip := by
    intro p hp
    rw [hnew] at hp
    rcases List.mem_append.1 hp with hp | hp
    · exact h.address p hp
    · exact (hopts p hp).2
  have hsub : inv.hosts.keys ⊆ hosts.keys := by
    rw [OrdDict.keys_of_items_eq_append hnew]
    exact List.subset_append_left _ _
  refine ⟨⟨h.wellFormed.place fun p hp => ?_, fun k hk => ?_, ?_, ?_⟩, ?_,
    prefix_place h.wellFormed hsub⟩
  · obtain ⟨ip, -, hp⟩ := haddress p hp
    exact ⟨ip, ip, hp⟩
  · rw [hhosts, OrdDict.keys_of_items_eq_append hnew] at hk
    rcases List.mem_append.1 hk with hk | hk
    · exact h.letter k hk
    · obtain ⟨p, hp, rfl⟩ := List.mem_map.1 hk
      exact (hopts p hp).1
  · rwa [hhosts]
  · rwa [hhosts]
  · rw [hhosts, hnew]
    exact List.prefix_append _ _

/-- A creation from addresses. -/
theorem creates (hreal : env.useRealHostname = false) (hdot : '.' ∉ env.hostPrefix.toList)
    (hpre : StartsWithLetter env env.hostPrefix) (hne : ips ≠ [])
    (hips : ∀ ip ∈ ips, AddArg.IsAddressText env ip ∧ P ip)
    (h : run env ips .absent = (.ok (), .yaml cfg')) :
    ∃ inv', cfg' = inv'.toValue ∧ OfAddresses env P inv' := by
  obtain ⟨start, hosts, w, hb, hs, hw⟩ := run_eq_ok.1 h
  have htexts : ∀ ip ∈ ips, AddArg.IsAddressText env ip := fun ip hip => (hips ip hip).1
  have hargs := inventoryArgs_texts (AddArg.ofIps_ne_nil (h := htexts) hne) AddArg.ofIps_isAddress
  rw [AddArg.map_text_ofIps] at hargs
  rw [builds, hargs] at hb
  obtain ⟨rfl, hdistinct, new, hnew, hopts⟩ := built false hreal hdot hpre .absent fresh hips hb
  have hplace : setGroups env hosts Inventory.fresh.toValue = .ok w := hs
  rw [setGroups_toValue] at hplace
  cases hplace
  cases hw
  exact ⟨_, rfl, (fresh.place hdistinct hnew hopts).1⟩

/-- An addition of addresses. -/
theorem grows (hreal : env.useRealHostname = false) (hdot : '.' ∉ env.hostPrefix.toList)
    (hpre : StartsWithLetter env env.hostPrefix) (hinv : OfAddresses env P inv)
    (hips : ∀ ip ∈ ips, AddArg.IsAddressText env ip ∧ P ip)
    (h : run env ("add" :: ips) (.yaml inv.toValue) = (.ok (), .yaml cfg')) :
    ∃ inv', cfg' = inv'.toValue ∧ OfAddresses env P inv' ∧ inv'.Extends inv := by
  obtain ⟨start, hosts, w, hb, hs, hw⟩ := run_eq_ok.1 h
  obtain ⟨rfl, hdistinct, new, hnew, hopts⟩ :=
    built true hreal hdot hpre (.yaml inv) hinv hips hb
  have hplace : setGroups env hosts inv.toValue = .ok w := hs
  rw [setGroups_toValue] at hplace
  cases hplace
  cases hw
  exact ⟨_, rfl, hinv.place hdistinct hnew hopts⟩

end OfAddresses

end

end Kubespray
