import Kubespray.Inventory.Loading

/-!
# What the loaded inventory contains

The documents of `load_file` are read as a list of listings (a host under a group, with its ip) in
the order in which the loops come to them. `CarriesListings` says what the configuration contains after a
list of listings; `loadHost` appends one listing (`CarriesListings.loadHost`), so the loops over hosts, groups
and files append all of them. A listing under `k8s_cluster` ends the run, one under
`k8s_cluster:children` adds the host to `all` only, and one under `all` writes the record of the host
and then the default `opts=""` over it. `load_imports_iff` says that nothing else goes wrong.
-/

namespace Kubespray

open Py

/-- A host under a group of a loaded file, with its `ip`. -/
structure Listing where
  group : String
  host : String
  ip : Value

/-- The listings of a group. -/
def groupListings (p : String × Value) : List Listing :=
  match p.2 with
  | .dict hosts => hosts.filterMap fun q => (q.2.getItem "ip").toOption.map (Listing.mk p.1 q.1)
  | _ => []

/-- The listings of a document, in the order of the loops of `load_file`. -/
def listings (data : Value) : List Listing :=
  match data with
  | .dict groups => groups.flatMap groupListings
  | _ => []

/-- A group of hosts whose options have an `ip`. -/
def IsHostGroup (p : String × Value) : Prop :=
  ∃ hosts, p.2 = .dict hosts ∧ ∀ q ∈ hosts, HasIpItem q.2

/-- A map from group names to maps from host names to objects that contain `ip`. -/
def IsHostFile (data : Value) : Prop :=
  ∃ groups, data = .dict groups ∧ ∀ p ∈ groups, IsHostGroup p

/-- After the files `before`, the files contain the documents. -/
def FilesRead (env : Env) : List String → List String → List Value → Prop
  | _, [], docs => docs = []
  | before, filename :: files, docs => ∃ data rest, docs = data :: rest ∧
      env.readJson before filename = .ok data ∧ FilesRead env (before ++ [filename]) files rest

/-- The path of the hosts of a group. -/
def hostsPath (group : String) : List String :=
  if group = "all" then ["all", "hosts"] else ["all", "children", group, "hosts"]

/-- Whether the configuration has the host in the group. -/
def HasMember (yamlConfig : Value) (group host : String) : Prop :=
  ∃ kvs, yamlConfig.getPath (hostsPath group) = .ok (.dict kvs) ∧ host ∈ Assoc.keys kvs

/-- The record of a host. -/
def hostRecord (ip : Value) : Value := .dict [("ansible_host", ip), ("ip", ip), ("access_ip", ip)]

/-- The last listing of a host. -/
def LastListing (ls : List Listing) (l : Listing) : Prop :=
  ∃ pre post, ls = pre ++ l :: post ∧ ∀ m ∈ post, m.host ≠ l.host

/-- The run has exited with status 0, and the inventory that it wrote has the listed members, and
for each host the record with the ip of its last listing. -/
def Imported (ls : List Listing) (result : Except Exc Unit × ConfigFile) : Prop :=
  ∃ yamlConfig, result = (.error (.systemExit 0), .yaml yamlConfig) ∧
    (∀ group host, HasMember yamlConfig group host ↔
      ∃ l ∈ ls, l.host = host ∧ (group = "all" ∨ group = l.group)) ∧
    ∀ l, LastListing ls l → yamlConfig.getPath ["all", "hosts", l.host] = .ok (hostRecord l.ip)

/-- What the loops leave at the record of a host with this last listing. -/
def storedOpts (l : Listing) : Value := if l.group = "all" then noOpts else hostRecord l.ip

/-- The groups in which `load_file` puts a host that is listed under `listed`. -/
def TakesHost (group listed : String) : Prop :=
  group = "all" ∨ group = listed ∧ group ≠ "k8s_cluster:children"

/-- What a configuration contains after the listings `ls`. -/
structure CarriesListings (yamlConfig : Value) (ls : List Listing) : Prop where
  merged : Merged yamlConfig
  member : ∀ group host, HasMember yamlConfig group host ↔
    ∃ l ∈ ls, l.host = host ∧ TakesHost group l.group
  opts : ∀ l, LastListing ls l →
    yamlConfig.getPath ["all", "hosts", l.host] = .ok (storedOpts l)

/-- Two configurations with the same members and the same records of the hosts. -/
structure SameHosts (yamlConfig yamlConfig' : Value) : Prop where
  member : ∀ group host, HasMember yamlConfig' group host ↔ HasMember yamlConfig group host
  opts : ∀ host, yamlConfig'.getPath ["all", "hosts", host] =
    yamlConfig.getPath ["all", "hosts", host]

/-! ## Listings -/

section
variable {ls : List Listing} {l m : Listing}

/-- With one more listing, it is the last one of its host, and those of other hosts stay. -/
theorem lastListing_append :
    LastListing (ls ++ [m]) l ↔ l = m ∨ LastListing ls l ∧ m.host ≠ l.host := by
  constructor
  · rintro ⟨pre, post, he, hpost⟩
    rcases List.eq_nil_or_concat post with rfl | ⟨post, m', rfl⟩
    · exact .inl (List.singleton_inj.1 (List.append_inj' he rfl).2).symm
    · rw [List.concat_eq_append] at he hpost
      have hsplit : ls ++ [m] = (pre ++ l :: post) ++ [m'] := by rw [he]; simp
      obtain ⟨rfl, hm⟩ := List.append_inj' hsplit rfl
      cases hm
      exact .inr ⟨⟨pre, post, rfl, fun n hn => hpost n (List.mem_append_left _ hn)⟩,
        hpost m (by simp)⟩
  · rintro (rfl | ⟨⟨pre, post, rfl, hpost⟩, hne⟩)
    · exact ⟨ls, [], rfl, nofun⟩
    · refine ⟨pre, post ++ [m], by simp, fun n hn => ?_⟩
      rcases List.mem_append.1 hn with hn | hn
      · exact hpost n hn
      · rw [List.mem_singleton.1 hn]
        exact hne

theorem LastListing.mem (h : LastListing ls l) : l ∈ ls := by
  obtain ⟨pre, post, rfl, -⟩ := h
  simp

end

/-! ## What the methods change -/

section
variable {hosts children : List (String × Value)} {group listed host h : String}
  {yamlConfig yamlConfig' opts : Value} {ls : List Listing}

theorem getPath_host_configOf :
    (configOf hosts children).getPath ["all", "hosts", h] = Value.getItem (.dict hosts) h := by
  show (Value.getItem (.dict hosts) h >>= Value.getPath []) = _
  cases Value.getItem (.dict hosts) h <;> rfl

/-- A change of the groups keeps the records of the hosts. -/
theorem getPath_host_of_update {ks : List String} {f : Value → Except Exc Value}
    (hok : yamlConfig.update ("all" :: "children" :: ks) f = .ok yamlConfig') :
    yamlConfig'.getPath ["all", "hosts", h] = yamlConfig.getPath ["all", "hosts", h] :=
  @Value.getPath_update_of_ne "children" "hosts" (by decide) ["all"] ks [h] f _ _ hok

theorem getPath_hosts_configOf (hall : group ≠ "all") :
    (configOf hosts children).getPath (hostsPath group) =
      (Value.getItem (.dict children) group >>= Value.getPath ["hosts"]) := by
  rw [hostsPath, if_neg hall]
  rfl

theorem hasMember_all : HasMember (configOf hosts children) "all" h ↔ h ∈ Assoc.keys hosts := by
  constructor
  · rintro ⟨kvs, hget, hm⟩
    cases hget
    exact hm
  · exact fun hm => ⟨hosts, rfl, hm⟩

/-- The members of a group with a mapping of hosts. -/
theorem hasMember_of_lookup {kvs : List (String × Value)} (hall : group ≠ "all")
    (hl : Assoc.lookup group children = some (.dict [("hosts", .dict kvs)])) :
    HasMember (configOf hosts children) group h ↔ h ∈ Assoc.keys kvs := by
  have hget : (configOf hosts children).getPath (hostsPath group) = .ok (.dict kvs) := by
    rw [getPath_hosts_configOf hall, Value.getItem_dict, hl]
    rfl
  constructor
  · rintro ⟨kvs', hget', hm⟩
    rw [hget] at hget'
    cases hget'
    exact hm
  · exact fun hm => ⟨kvs, hget, hm⟩

/-- A group that is not there, or `k8s_cluster`, has no members. -/
theorem not_hasMember (hall : group ≠ "all") (hl : Assoc.lookup group children = none ∨
    Assoc.lookup group children = some k8sClusterGroup) :
    ¬ HasMember (configOf hosts children) group h := by
  rintro ⟨kvs, hget, -⟩
  rw [getPath_hosts_configOf hall, Value.getItem_dict] at hget
  rcases hl with hl | hl <;> rw [hl] at hget <;> cases hget

/-- The members of a group depend on this group only. -/
theorem hasMember_congr {hosts' children' : List (String × Value)} (hall : group ≠ "all")
    (hl : Assoc.lookup group children' = Assoc.lookup group children) :
    HasMember (configOf hosts' children') group h ↔
      HasMember (configOf hosts children) group h := by
  rw [HasMember, HasMember, getPath_hosts_configOf hall, getPath_hosts_configOf hall,
    Value.getItem_dict, Value.getItem_dict, hl]

theorem SameHosts.refl (yamlConfig : Value) : SameHosts yamlConfig yamlConfig :=
  ⟨fun _ _ => .rfl, fun _ => rfl⟩

/-- Replacing a group without members by one without members. -/
theorem sameHosts_insert {v : Value}
    (hold : ∀ h, ¬ HasMember (configOf hosts children) group h)
    (hnew : ∀ h, ¬ HasMember (configOf hosts (Assoc.insert group v children)) group h) :
    SameHosts (configOf hosts children) (configOf hosts (Assoc.insert group v children)) where
  member g h := by
    by_cases hg : g = "all"
    · rw [hg, hasMember_all, hasMember_all]
    · by_cases hgg : g = group
      · rw [hgg]
        exact iff_of_false (hnew h) (hold h)
      · exact hasMember_congr hg (Assoc.lookup_insert_of_ne (Ne.symm hgg) _ _)
  opts h := by rw [getPath_host_configOf, getPath_host_configOf]

/-- `ensure_required_groups` adds no host. -/
theorem ensureRequiredGroup_sameHosts (hm : Merged yamlConfig)
    (hok : ensureRequiredGroup yamlConfig group = .ok yamlConfig') :
    SameHosts yamlConfig yamlConfig' := by
  obtain ⟨hosts, children, rfl, -, -⟩ := hm
  by_cases hall : group = "all"
  · subst hall
    cases hok
    exact .refl _
  rw [ensureRequiredGroup, if_neg hall, getPath_children_configOf, ok_bind, Value.contains,
    ok_bind] at hok
  by_cases hg : group ∈ Assoc.keys children
  · rw [decide_eq_true hg, if_pos rfl] at hok
    cases hok
    exact .refl _
  · rw [decide_eq_false hg, if_neg Bool.false_ne_true, update_children_configOf] at hok
    cases hok
    refine sameHosts_insert (fun h => not_hasMember hall (.inl (Assoc.lookup_eq_none.2 hg)))
      fun h => ?_
    rw [hasMember_of_lookup hall (Assoc.lookup_insert_self _ _ _)]
    exact List.not_mem_nil

/-- `set_k8s_cluster` loses no host of a configuration without hosts in `k8s_cluster`. -/
theorem setK8sCluster_sameHosts
    (hno : ∀ h, ¬ HasMember (configOf hosts children) "k8s_cluster" h)
    (hok : setK8sCluster (configOf hosts children) = .ok yamlConfig') :
    SameHosts (configOf hosts children) yamlConfig' := by
  rw [setK8sCluster, update_children_configOf] at hok
  cases hok
  exact sameHosts_insert hno fun h =>
    not_hasMember (by decide) (.inr (Assoc.lookup_insert_self _ _ _))

/-- What `add_host_to_group` adds to the groups. -/
theorem addHostToGroup_member (hm : Merged yamlConfig) (hg : HasGroup listed yamlConfig)
    (hok : addHostToGroup listed host opts yamlConfig = .ok yamlConfig') :
    HasMember yamlConfig' group h ↔ HasMember yamlConfig group h ∨
      h = host ∧ group = listed ∧ group ≠ "k8s_cluster:children" := by
  obtain ⟨hosts, children, rfl, hgroups, hk8s⟩ := hm
  by_cases hall : listed = "all"
  · subst hall
    rw [addHostToGroup_all_configOf] at hok
    cases hok
    by_cases hga : group = "all"
    · subst hga
      rw [hasMember_all, hasMember_all, Assoc.mem_keys_insert]
      simp [or_comm]
    · exact (@hasMember_congr hosts children group h _ _ hga rfl).trans (by simp [hga])
  by_cases hsub : listed = "k8s_cluster:children"
  · subst hsub
    cases hok
    have hno : ¬ (group = "k8s_cluster:children" ∧ group ≠ "k8s_cluster:children") :=
      fun hc => hc.2 hc.1
    simp [hno]
  by_cases hk : listed = "k8s_cluster"
  · subst hk
    rw [addHostToGroup_k8sCluster hk8s] at hok
    cases hok
  obtain ⟨v, hv⟩ := hg.resolve_left hall
  rw [getPath_group_configOf] at hv
  obtain ⟨kvs, rfl⟩ := hgroups listed v hk hv
  rw [addHostToGroup_group_configOf hall hsub hv] at hok
  cases hok
  by_cases hga : group = "all"
  · subst hga
    rw [hasMember_all, hasMember_all]
    simp [Ne.symm hall]
  by_cases hgl : group = listed
  · subst hgl
    rw [hasMember_of_lookup hga (Assoc.lookup_insert_self _ _ _), hasMember_of_lookup hga hv,
      Assoc.mem_keys_insert]
    simp [hsub, or_comm]
  · have hkeep := Assoc.lookup_insert_of_ne (Ne.symm hgl)
      (.dict [("hosts", .dict (Assoc.insert host .none kvs))]) children
    exact (@hasMember_congr hosts children group h _ _ hga hkeep).trans (by simp [hgl])

/-- What `add_host_to_group` writes into the records of the hosts. -/
theorem addHostToGroup_opts (hm : Merged yamlConfig)
    (hok : addHostToGroup listed host opts yamlConfig = .ok yamlConfig') :
    yamlConfig'.getPath ["all", "hosts", h] =
      if listed = "all" ∧ h = host then .ok opts else yamlConfig.getPath ["all", "hosts", h] := by
  obtain ⟨hosts, children, rfl, hgroups, hk8s⟩ := hm
  by_cases hall : listed = "all"
  · subst hall
    rw [addHostToGroup_all_configOf] at hok
    cases hok
    rw [getPath_host_configOf, getPath_host_configOf, Value.getItem_dict, Value.getItem_dict,
      Assoc.lookup_insert]
    by_cases hh : h = host
    · simp [hh]
    · simp [hh, Ne.symm hh]
  rw [if_neg fun hc => hall hc.1]
  rw [addHostToGroup, if_neg hall] at hok
  split at hok
  · rw [bind_eq_ok] at hok
    obtain ⟨hs, -, hok⟩ := hok
    split at hok <;> exact getPath_host_of_update hok
  · cases hok
    rfl

/-! ## The loops -/

theorem CarriesListings.sameHosts (hc : CarriesListings yamlConfig ls) (hm : Merged yamlConfig')
    (hs : SameHosts yamlConfig yamlConfig') : CarriesListings yamlConfig' ls where
  merged := hm
  member group host := (hs.member group host).trans (hc.member group host)
  opts l hl := (hs.opts l.host).trans (hc.opts l hl)

/-- One host of `load_file` appends its listing. -/
theorem CarriesListings.loadHost {p : String × Value} (hc : CarriesListings yamlConfig ls)
    (hg : HasGroup listed yamlConfig) (hok : loadHost listed yamlConfig p = .ok yamlConfig') :
    ∃ ip, p.2.getItem "ip" = .ok ip ∧ CarriesListings yamlConfig' (ls ++ [⟨listed, p.1, ip⟩]) := by
  have hm' := ((loadHost_merged hc.merged hg).2 _ hok).1
  rw [Kubespray.loadHost, bind_eq_ok] at hok
  obtain ⟨ip, hip, hok⟩ := hok
  rw [bind_eq_ok] at hok
  obtain ⟨c, hall, hgroup⟩ := hok
  have hmc : Merged c ∧ HasGroup listed c := by
    obtain ⟨c', hc', hm, hgc⟩ := addHostToGroup_all_merged p.1 (hostRecord ip) hc.merged hg
    rw [← hostRecord, hc'] at hall
    cases hall
    exact ⟨hm, hgc⟩
  refine ⟨ip, hip, hm', fun group host => ?_, fun l hl => ?_⟩
  · rw [addHostToGroup_member hmc.1 hmc.2 hgroup,
      addHostToGroup_member hc.merged (.inl rfl) hall, hc.member]
    simp only [List.mem_append, List.mem_singleton, or_and_right, exists_or, exists_eq_left,
      TakesHost, or_assoc]
    refine or_congr_right ?_
    constructor
    · rintro (⟨rfl, rfl, -⟩ | ⟨rfl, h⟩)
      · exact ⟨rfl, .inl rfl⟩
      · exact ⟨rfl, .inr h⟩
    · rintro ⟨rfl, rfl | h⟩
      · exact .inl ⟨rfl, rfl, by decide⟩
      · exact .inr ⟨rfl, h⟩
  · rw [addHostToGroup_opts hmc.1 hgroup, addHostToGroup_opts hc.merged hall]
    rcases lastListing_append.1 hl with rfl | ⟨hl, hne⟩
    · by_cases hlisted : listed = "all" <;> simp [storedOpts, hlisted, hostRecord]
    · have hne : l.host ≠ p.1 := hne.symm
      simp [hne, hc.opts l hl]

/-- The loop over the hosts of a group. -/
theorem CarriesListings.loadHosts {kvs : List (String × Value)} (hc : CarriesListings yamlConfig ls)
    (hg : HasGroup listed yamlConfig)
    (hok : kvs.foldlM (Kubespray.loadHost listed) yamlConfig = .ok yamlConfig') :
    CarriesListings yamlConfig' (ls ++ groupListings (listed, .dict kvs)) := by
  induction kvs generalizing yamlConfig ls with
  | nil =>
    cases hok
    simpa [groupListings] using hc
  | cons p kvs ih =>
    rw [List.foldlM_cons, bind_eq_ok] at hok
    obtain ⟨c, hp, hok⟩ := hok
    obtain ⟨ip, hip, hc'⟩ := hc.loadHost hg hp
    have hgc := ((loadHost_merged hc.merged hg).2 _ hp).2
    have hsplit : groupListings (listed, .dict (p :: kvs)) =
        ⟨listed, p.1, ip⟩ :: groupListings (listed, .dict kvs) := by
      simp [groupListings, hip, Except.toOption]
    rw [hsplit, List.append_cons]
    exact ih hc' hgc hok

/-- One group of `load_file`. -/
theorem CarriesListings.loadGroup {p : String × Value} (hc : CarriesListings yamlConfig ls)
    (hok : loadGroup yamlConfig p = .ok yamlConfig') :
    CarriesListings yamlConfig' (ls ++ groupListings p) := by
  obtain ⟨c, hensure, hm, hg⟩ := ensureRequiredGroup_merged hc.merged p.1
  have hone : ensureRequiredGroups [p.1] yamlConfig = .ok c := by
    rw [ensureRequiredGroups, List.foldlM_cons, hensure]
    rfl
  have hcc : CarriesListings c ls :=
    hc.sameHosts hm (ensureRequiredGroup_sameHosts hc.merged hensure)
  obtain ⟨g, v⟩ := p
  rw [Kubespray.loadGroup, hone, ok_bind] at hok
  cases v with
  | dict kvs => exact hcc.loadHosts hg hok
  | _ => cases hok

/-- The configuration that the first file is merged into has no hosts. -/
theorem carries_fresh (hok : (ensureRequiredGroups roles (.dict []) >>= setK8sCluster) =
    .ok yamlConfig) : CarriesListings yamlConfig [] := by
  obtain ⟨c, hc, hm⟩ := prepared (.inl rfl)
  rw [hok] at hc
  cases hc
  refine ⟨hm, fun group host => iff_of_false ?_ (by simp), fun l hl => absurd hl.mem (by simp)⟩
  rintro ⟨kvs, hget, hmem⟩
  have hempty : kvs = [] := by
    have hstart : (ensureRequiredGroups roles (.dict []) >>= setK8sCluster) = .ok (configOf []
        [("kube_control_plane", .dict [("hosts", .dict [])]),
          ("kube_node", .dict [("hosts", .dict [])]), ("etcd", .dict [("hosts", .dict [])]),
          ("k8s_cluster", k8sClusterGroup),
          ("calico_rr", .dict [("hosts", .dict [])])]) := rfl
    rw [hstart] at hok
    cases hok
    by_cases hall : group = "all"
    · subst hall
      cases hget
      rfl
    obtain ⟨v, hv, hvget⟩ := bind_eq_ok.1 ((getPath_hosts_configOf hall).symm.trans hget)
    rw [Value.getItem_dict] at hv
    split at hv
    · next w hl =>
      cases hv
      have hgroup := Assoc.mem_of_lookup hl
      simp only [List.mem_cons, Prod.mk.injEq, List.not_mem_nil, or_false] at hgroup
      rcases hgroup with ⟨-, rfl⟩ | ⟨-, rfl⟩ | ⟨-, rfl⟩ | ⟨-, rfl⟩ | ⟨-, rfl⟩ <;> cases hvget <;>
        rfl
    · cases hv
  rw [hempty] at hmem
  cases hmem

/-- What a document is merged into carries the listings of the documents before. -/
theorem CarriesListings.prepare (hc : CarriesListings yamlConfig ls)
    (hok : (ensureRequiredGroups roles yamlConfig >>= setK8sCluster) = .ok yamlConfig') :
    CarriesListings yamlConfig' ls := by
  rw [bind_eq_ok] at hok
  obtain ⟨c, hensure, hset⟩ := hok
  have hcc : CarriesListings c ls := by
    refine foldlM_invariant (P := fun c => CarriesListings c ls)
      (fun b b' group _ hb hs => ?_) hc hensure
    obtain ⟨b'', hs', hm, -⟩ := ensureRequiredGroup_merged hb.merged group
    rw [hs] at hs'
    cases hs'
    exact hb.sameHosts hm (ensureRequiredGroup_sameHosts hb.merged hs)
  obtain ⟨hosts, children, rfl, hgroups, hk8s⟩ := id hcc.merged
  obtain ⟨c', hset', hm⟩ := setK8sCluster_configOf hgroups
  rw [hset] at hset'
  cases hset'
  exact hcc.sameHosts hm
    (setK8sCluster_sameHosts (fun h => not_hasMember (by decide) (.inr hk8s)) hset)

/-- The documents merged one after the other. -/
def loadDocs (docs : List Value) (yamlConfig : Value) : Except Exc Value :=
  docs.foldlM loadData yamlConfig

/-- One document appends its listings. -/
theorem carries_loadData {data : Value}
    (hc : yamlConfig = .dict [] ∧ ls = [] ∨ CarriesListings yamlConfig ls)
    (hok : loadData yamlConfig data = .ok yamlConfig') :
    CarriesListings yamlConfig' (ls ++ listings data) := by
  rw [loadData, bind_eq_ok] at hok
  obtain ⟨c₁, h₁, hok⟩ := hok
  rw [bind_eq_ok] at hok
  obtain ⟨c₂, h₂, hok⟩ := hok
  rw [bind_eq_ok] at hok
  obtain ⟨groups, hitems, hfold⟩ := hok
  have hprep : (ensureRequiredGroups roles yamlConfig >>= setK8sCluster) = .ok c₂ := by
    rw [h₁, ok_bind, h₂]
  have hc₂ : CarriesListings c₂ ls := by
    rcases hc with ⟨rfl, rfl⟩ | hc
    · exact carries_fresh hprep
    · exact hc.prepare hprep
  cases data with
  | dict kvs =>
    cases hitems
    clear h₁ h₂ hprep hc
    show CarriesListings yamlConfig' (ls ++ groups.flatMap groupListings)
    induction groups generalizing c₂ ls with
    | nil =>
      cases hfold
      simpa using hc₂
    | cons p groups ih =>
      rw [List.foldlM_cons, bind_eq_ok] at hfold
      obtain ⟨c₃, hp, hfold⟩ := hfold
      rw [List.flatMap_cons, ← List.append_assoc]
      exact ih _ hfold (hc₂.loadGroup hp)
  | _ => cases hitems

/-- All documents append their listings. -/
theorem carries_loadDocs {docs : List Value} (hdocs : docs ≠ [])
    (hc : yamlConfig = .dict [] ∧ ls = [] ∨ CarriesListings yamlConfig ls)
    (hok : loadDocs docs yamlConfig = .ok yamlConfig') :
    CarriesListings yamlConfig' (ls ++ docs.flatMap listings) := by
  induction docs generalizing yamlConfig ls with
  | nil => exact absurd rfl hdocs
  | cons data docs ih =>
    rw [loadDocs, List.foldlM_cons, bind_eq_ok] at hok
    obtain ⟨c, hdata, hok⟩ := hok
    have hcarries := carries_loadData hc hdata
    rw [List.flatMap_cons, ← List.append_assoc]
    cases docs with
    | nil =>
      cases hok
      simpa using hcarries
    | cons data' docs => exact ih (List.cons_ne_nil _ _) (.inr hcarries) hok

/-! ## Which documents can be merged -/

/-- The listings of a group of hosts. -/
theorem groupListings_of_isHostGroup {p : String × Value} {kvs : List (String × Value)}
    (hp : p.2 = .dict kvs) (hall : ∀ q ∈ kvs, HasIpItem q.2) :
    groupListings p = [] ↔ kvs = [] := by
  rw [groupListings, hp]
  constructor
  · intro hnil
    refine List.eq_nil_iff_forall_not_mem.2 fun q hq => ?_
    obtain ⟨ip, hip⟩ := hall q hq
    have hl : Listing.mk p.1 q.1 ip ∈ ([] : List Listing) := by
      rw [← hnil]
      exact List.mem_filterMap.2 ⟨q, hq, by simp [hip, Except.toOption]⟩
    cases hl
  · rintro rfl
    rfl

theorem group_of_mem_groupListings {p : String × Value} {l : Listing}
    (hl : l ∈ groupListings p) : l.group = p.1 := by
  unfold groupListings at hl
  split at hl
  · obtain ⟨q, -, hq⟩ := List.mem_filterMap.1 hl
    obtain ⟨ip, -, rfl⟩ := Option.map_eq_some_iff.1 hq
    rfl
  · cases hl

/-- A document of host groups can be merged iff it lists no host under `k8s_cluster`. -/
theorem loadable_iff {data : Value} (hdata : IsHostFile data) :
    Loadable data ↔ ∀ l ∈ listings data, l.group ≠ "k8s_cluster" := by
  obtain ⟨groups, rfl, hgroups⟩ := hdata
  simp only [Loadable, Value.dict.injEq, exists_eq_left', listings, List.mem_flatMap]
  constructor
  · rintro hall l ⟨p, hp, hl⟩ hk
    obtain ⟨kvs, hkvs, hips, hnil⟩ := hall p hp
    rw [group_of_mem_groupListings hl] at hk
    rw [(groupListings_of_isHostGroup hkvs hips).2 (hnil hk)] at hl
    cases hl
  · intro hall p hp
    obtain ⟨kvs, hkvs, hips⟩ := hgroups p hp
    refine ⟨kvs, hkvs, hips, fun hk => (groupListings_of_isHostGroup hkvs hips).1 ?_⟩
    refine List.eq_nil_iff_forall_not_mem.2 fun l hl => hall l ⟨p, hp, hl⟩ ?_
    rw [group_of_mem_groupListings hl, hk]

/-- All documents can be merged iff none of them lists a host under `k8s_cluster`. -/
theorem loadDocs_isOk {docs : List Value} (hdocs : ∀ data ∈ docs, IsHostFile data) :
    (∃ w, loadDocs docs (.dict []) = .ok w) ↔
      ∀ l ∈ docs.flatMap listings, l.group ≠ "k8s_cluster" := by
  have hfold := foldlM_isOk_iff (P := fun c => c = .dict [] ∨ Merged c) (l := docs)
    (fun c data _ hc => (@loadData_isOk c data hc).1)
    (fun c c' data _ hc hok => .inr ((loadData_isOk hc).2 c' hok)) (.inl rfl)
  rw [loadDocs, hfold]
  constructor
  · intro hall l hl
    obtain ⟨data, hdata, hl⟩ := List.mem_flatMap.1 hl
    exact (loadable_iff (hdocs data hdata)).1 (hall data hdata) l hl
  · intro hall data hdata
    exact (loadable_iff (hdocs data hdata)).2 fun l hl =>
      hall l (List.mem_flatMap.2 ⟨data, hdata, hl⟩)

end

/-! ## The run -/

section
variable {env : Env} {before files : List String} {docs : List Value} {file : ConfigFile}
  {yamlConfig : Value}

/-- The loop over files that contain the documents. -/
theorem exec_loadFiles_read (hread : FilesRead env before files docs) :
    (∀ w, loadDocs docs yamlConfig = .ok w →
      (loadFiles env before yamlConfig files).exec file =
        (.ok w, if files = [] then file else .yaml w)) ∧
    ∀ e, loadDocs docs yamlConfig = .error e →
      ∃ file', (loadFiles env before yamlConfig files).exec file = (.error e, file') := by
  induction files generalizing before docs yamlConfig file with
  | nil =>
    cases hread
    refine ⟨fun w hw => ?_, fun e he => by cases he⟩
    cases hw
    rfl
  | cons filename files ih =>
    obtain ⟨data, rest, rfl, hdata, hrest⟩ := hread
    rw [loadFiles, Script.exec_bind, exec_loadOne, readData_eq_ok.2 hdata, ok_bind, loadDocs,
      List.foldlM_cons]
    cases hmerge : loadData yamlConfig data with
    | error e => exact ⟨fun w hw => (by cases hw), fun e' he => ⟨file, by cases he; rfl⟩⟩
    | ok c =>
      obtain ⟨hok, herr⟩ := @ih (before ++ [filename]) rest (.yaml c) c hrest
      refine ⟨fun w hw => ?_, herr⟩
      rw [if_neg (List.cons_ne_nil _ _)]
      refine (hok w hw).trans ?_
      split
      · next hnil =>
        subst hnil
        cases hrest
        cases hw
        rfl
      · rfl

/-- A run `load` of files that contain the documents. -/
theorem run_load_read (hne : files ≠ []) (hread : FilesRead env [] files docs) :
    (∀ w, loadDocs docs (.dict []) = .ok w →
      run env ("load" :: files) file = (.error (.systemExit 0), .yaml w)) ∧
    ∀ e, loadDocs docs (.dict []) = .error e →
      ∃ file', run env ("load" :: files) file = (.error e, file') := by
  obtain ⟨name, files, rfl⟩ := List.exists_cons_of_ne_nil hne
  obtain ⟨hok, herr⟩ := @exec_loadFiles_read env [] (name :: files) docs file (.dict []) hread
  rw [run_load]
  refine ⟨fun w hw => by rw [hok w hw]; rfl, fun e he => ?_⟩
  obtain ⟨file', hexec⟩ := herr e he
  exact ⟨file', by rw [hexec]⟩

/-- `load` imports the files as they list the hosts iff no host is listed under `k8s_cluster` or
`k8s_cluster:children`, and no host has its last listing under `all`. -/
theorem load_imports_iff (hne : files ≠ []) (hread : FilesRead env [] files docs)
    (hdocs : ∀ data ∈ docs, IsHostFile data) :
    Imported (docs.flatMap listings) (run env ("load" :: files) file) ↔
      (∀ l ∈ docs.flatMap listings,
        l.group ≠ "k8s_cluster" ∧ l.group ≠ "k8s_cluster:children") ∧
      ∀ l, LastListing (docs.flatMap listings) l → l.group ≠ "all" := by
  have hdne : docs ≠ [] := by
    rintro rfl
    obtain ⟨name, files, rfl⟩ := List.exists_cons_of_ne_nil hne
    obtain ⟨data, rest, hnil, -⟩ := hread
    cases hnil
  obtain ⟨hrun, herr⟩ := @run_load_read env files docs file hne hread
  cases hload : loadDocs docs (.dict []) with
  | error e =>
    obtain ⟨file', hexec⟩ := herr e hload
    rw [hexec]
    constructor
    · rintro ⟨c, hc, -⟩
      have hexit : NoExit (loadDocs docs (.dict [])) := NoExit.foldlM NoExit.loadData _ _
      rw [hload] at hexit
      exact absurd (by rw [Except.error.inj (Prod.mk.inj hc).1]) (hexit 0)
    · rintro ⟨hall, -⟩
      obtain ⟨w, hw⟩ := (loadDocs_isOk hdocs).2 fun l hl => (hall l hl).1
      rw [hload] at hw
      cases hw
  | ok w =>
    have hcarries : CarriesListings w (docs.flatMap listings) :=
      carries_loadDocs hdne (.inl ⟨rfl, rfl⟩) hload
    have hk8s := (loadDocs_isOk hdocs).1 ⟨w, hload⟩
    rw [hrun w hload]
    constructor
    · rintro ⟨c, hc, hmember, hopts⟩
      cases hc
      refine ⟨fun l hl => ⟨hk8s l hl, fun hsub => ?_⟩, fun l hl hall => ?_⟩
      · -- the host is no member of `k8s_cluster:children`
        obtain ⟨l', -, -, hgroup⟩ := (hcarries.member "k8s_cluster:children" l.host).1
          ((hmember _ _).2 ⟨l, hl, rfl, .inr hsub.symm⟩)
        rcases hgroup with hgroup | ⟨-, hgroup⟩
        · exact absurd hgroup (by decide)
        · exact hgroup rfl
      · -- the record is the text `""`
        have hstored := hcarries.opts l hl
        rw [hopts l hl, storedOpts, if_pos hall] at hstored
        cases hstored
    · rintro ⟨hall, hlast⟩
      refine ⟨w, rfl, fun group host => (hcarries.member group host).trans ?_, fun l hl => ?_⟩
      · refine exists_congr fun l => and_congr_right fun hl => and_congr_right fun _ =>
          or_congr_right ⟨And.left, fun hgroup => ⟨hgroup, ?_⟩⟩
        rw [hgroup]
        exact (hall l hl).2
      · rw [hcarries.opts l hl, storedOpts, if_neg (hlast l hl)]

end

/-- `json.load` finds the document of each file of a table. -/
def jsonFiles (docs : List (String × Value)) : Env :=
  { readJson := fun _ filename => (Assoc.lookup filename docs).elim (.error .osError) .ok }

/-- A host with its ip in a loaded file. -/
def ipObject (ip : String) : Value := .dict [("ip", .str ip)]

/-- A host that two files list is in the groups of both, with the ip of the second. -/
theorem load_imports_two_files :
    Imported [⟨"kube_node", "host1", .str "10.0.0.1"⟩, ⟨"etcd", "host1", .str "10.0.0.2"⟩]
      (run (jsonFiles [
          ("a.json", .dict [("kube_node", .dict [("host1", ipObject "10.0.0.1")])]),
          ("b.json", .dict [("etcd", .dict [("host1", ipObject "10.0.0.2")])])])
        ["load", "a.json", "b.json"] .absent) := by
  let docs : List Value := [.dict [("kube_node", .dict [("host1", ipObject "10.0.0.1")])],
    .dict [("etcd", .dict [("host1", ipObject "10.0.0.2")])]]
  have hread : FilesRead (jsonFiles [("a.json", docs[0]), ("b.json", docs[1])]) []
      ["a.json", "b.json"] docs := ⟨_, _, rfl, rfl, _, _, rfl, rfl, rfl⟩
  refine (load_imports_iff (List.cons_ne_nil _ _) hread ?_).2 ⟨?_, fun l hl => ?_⟩
  · intro data hdata
    rcases List.mem_pair.1 hdata with rfl | rfl <;>
      exact ⟨_, rfl, by simp [IsHostGroup, HasIpItem, ipObject, Assoc.lookup]⟩
  · simp [docs, listings, groupListings, ipObject, Assoc.lookup, Except.toOption]
  · have hmem := hl.mem
    simp [docs, listings, groupListings, ipObject, Assoc.lookup, Except.toOption] at hmem
    rcases hmem with rfl | rfl <;> decide

/-- A host is listed under `all`: its record is overwritten by the default `opts=""`. -/
theorem load_imports_fails : ¬ ∀ (env : Env) (files : List String) (docs : List Value)
    (file : ConfigFile), files ≠ [] → FilesRead env [] files docs →
      (∀ data ∈ docs, IsHostFile data) →
      Imported (docs.flatMap listings) (run env ("load" :: files) file) := by
  intro h
  let data : Value := .dict [("all", .dict [("host1", ipObject "10.0.0.1")])]
  have himported := h (jsonFiles [("a.json", data)]) ["a.json"] [data] .absent (by simp)
    ⟨_, _, rfl, rfl, rfl⟩ (by simp [data, IsHostFile, IsHostGroup, HasIpItem, ipObject,
      Assoc.lookup])
  obtain ⟨c, hc, -, hopts⟩ := himported
  have hrecord := hopts ⟨"all", "host1", .str "10.0.0.1"⟩ ⟨[], [], rfl, by simp⟩
  cases hc
  cases hrecord

end Kubespray
