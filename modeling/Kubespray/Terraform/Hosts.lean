import Kubespray.Terraform.Attributes
import Kubespray.Terraform.Resources
import Mathlib.Data.List.Perm.Basic

/-!
# The hosts of an inventory

The parsers `metal_device` and `openstack_host` of `contrib/terraform/terraform.py`, with
`calculate_mantl_vars` around the second. `map_attributes_survive_iff` follows the metadata of an
instance from the state file to the variables and groups of its host.
-/

open Py

namespace Terraform

/-- A host tuple `(name, attributes, groups)`. -/
structure Host where
  /-- The name. -/
  name : String
  /-- The variables, a dictionary. -/
  attrs : Flat
  /-- The names of its groups. -/
  groups : List String

/-- A value that a text operation takes. A name or a tag that is no text, which no provider has, is
an error here. -/
def asStr : Value → Except Exc String
  | .str s => .ok s
  | _ => .error .typeError

/-- `parse_bool`. -/
def parseBool (F : Format) : Value → Except Exc Bool
  | .bool b => .ok b
  | .str s =>
    match s.toList with
    | [] => .error .indexError
    | c :: _ =>
      if c = 't' ∨ c = 'T' then .ok true
      else if c = 'f' ∨ c = 'F' then .ok false
      else .error (.valueError ("could not convert " ++ F.repr (.str s) ++ " to a bool"))
  | _ => .error .attributeError

/-- `metal_device`. -/
def metalDevice (F : Format) (resource : Value) : Except Exc Host := do
  let raw ← resource.getPath ["primary", "attributes"]
  let name ← asStr (← raw.getItem "hostname")
  let id ← raw.getItem "id"
  let items ← raw.items
  let os ← raw.getItem "operating_system"
  let locked ← parseBool F (← raw.getItem "locked")
  let plan ← raw.getItem "plan"
  let projectId ← raw.getItem "project_id"
  let state ← raw.getItem "state"
  let address0 ← raw.getItem "network.0.address"
  let address1 ← raw.getItem "network.1.address"
  let address2 ← raw.getItem "network.2.address"
  let tags := parseList items "tags" '.'
  let attrs : Flat := [
    ("id", id),
    ("facilities", .list (parseList items "facilities" '.')),
    ("hostname", .str name),
    ("operating_system", os),
    ("locked", .bool locked),
    ("tags", .list tags),
    ("plan", plan),
    ("project_id", projectId),
    ("state", state),
    ("ansible_host", address0),
    ("ansible_ssh_user", .str "root"),
    ("ipv4_address", address0),
    ("public_ipv4", address0),
    ("ipv6_address", address1),
    ("public_ipv6", address1),
    ("private_ipv4", address2),
    ("provider", .str "metal")]
  let attrs := if os.isStr "flatcar_stable" then Assoc.insert "ansible_ssh_user" (.str "core") attrs
    else attrs
  let groups := ["metal_operating_system=" ++ (← asStr os), "metal_locked=" ++ F.str (.bool locked),
    "metal_state=" ++ (← asStr state), "metal_plan=" ++ (← asStr plan)]
  return ⟨name, attrs, groups ++ (← tags.mapM asStr)⟩

/-- The test `re.search("^volume.*.device$", key)`. -/
def isVolumeDevice (key : String) : Bool :=
  let cs := if key.toList.getLast? = some '\n' then key.toList.dropLast else key.toList
  "volume".toList.isPrefixOf cs && "device".toList.isSuffixOf cs && decide (13 ≤ cs.length) &&
    !cs.contains '\n'

/-- The variables for the devices of the volumes, if there are any. -/
def volumeAttrs (F : Format) (raw : Value) (items : Flat) : Except Exc Flat := do
  let devices := (items.filter fun q => isVolumeDevice q.1).zipIdx 1
  match ← raw.getIfIn "volume.#" with
  | some count =>
    if 0 < (← F.int count) then
      return devices.map fun p => ("disk_volume_device_" ++ toString p.2, p.1.2)
    else return []
  | none => return []

/-- The group of an entry of the metadata. -/
def metadataGroup (F : Format) (q : String × Value) : String :=
  "os_metadata_" ++ q.1 ++ "=" ++ F.str q.2

/-- The groups that `openstack_host` derives from the image, the flavor, the metadata and the
region. -/
def openstackGroups (F : Format) (image flavor metadata : Flat) (region : Value) :
    Except Exc (List String) := do
  let imageId ← (Value.dict image).getItem "id"
  let flavorName ← (Value.dict flavor).getItem "name"
  let kubesprayGroups ← match (Assoc.lookup "kubespray_groups" metadata).getD (.str "") with
    | .str s => pure (split ',' s)
    | _ => throw .attributeError
  return ["os_image=" ++ F.str imageId, "os_flavor=" ++ F.str flavorName] ++
    metadata.map (metadataGroup F) ++ ["os_region=" ++ F.str region] ++ kubesprayGroups

/-- `ansible_host` of an instance: the access address, of version 6 if the metadata prefers it. -/
def ansibleHost (raw : Value) : Except Exc Value := do
  let preferIp6 ← raw.getIfIn "metadata.prefer_ipv6"
  if preferIp6.any (·.isStr "1") then
    let ip ← asStr (← raw.getItem "access_ip_v6")
    return .str (String.ofList (ip.toList.filter fun c => c ≠ '[' && c ≠ ']'))
  else raw.getItem "access_ip_v4"

/-- The variables that `openstack_host` sets after the others. -/
def lateAttrs (ansibleHost : Value) (sshUser : Option Value) (volumes : Flat) (role : Value) :
    Flat :=
  [("ansible_host", ansibleHost), ("publicly_routable", .bool true)] ++
    (sshUser.map ("ansible_ssh_user", ·)).toList ++ volumes ++ [("role", role)]

/-- The variables that `openstack_host` sets first. -/
def openstackVars (raw : Value) (items : Flat) : Except Exc Flat := do
  let accessIp4 ← raw.getItem "access_ip_v4"
  let accessIp6 ← raw.getItem "access_ip_v6"
  let fixedIp ← raw.getItem "network.0.fixed_ip_v4"
  let id ← raw.getItem "id"
  let keyPair ← raw.getItem "key_pair"
  let network ← parseAttrList items "network" '.'
  let region ← raw.get "region" (.str "")
  let port ← raw.getItem "network.0.port"
  let floating ← raw.contains "floating_ip"
  return [
    ("access_ip_v4", accessIp4),
    ("access_ip_v6", accessIp6),
    ("access_ip", accessIp4),
    ("ip", fixedIp),
    ("flavor", .dict (parseDict items "flavor" '_')),
    ("id", id),
    ("image", .dict (parseDict items "image" '_')),
    ("key_pair", keyPair),
    ("metadata", .dict (parseDict items "metadata" '.')),
    ("network", .list (network.map .dict)),
    ("region", region),
    ("security_groups", .list (parseList items "security_groups" '.')),
    ("ansible_ssh_port", .int 22),
    ("host_domain", .str "novalocal"),
    ("use_host_domain", .bool true),
    ("public_ipv4", accessIp4),
    ("private_ipv4", if floating then fixedIp else accessIp4),
    ("port_id", port),
    ("provider", .str "openstack")]

/-- `openstack_host` without its decorator. -/
def openstackHostInner (F : Format) (resource : Value) : Except Exc Host := do
  let raw ← resource.getPath ["primary", "attributes"]
  let name ← asStr (← raw.getItem "name")
  let items ← raw.items
  let vars ← openstackVars raw items
  let metadata := parseDict items "metadata" '.'
  -- the handler of `KeyError` and `ValueError` is never reached: both addresses are there
  let ansibleHost ← ansibleHost raw
  let sshUser ← raw.getIfIn "metadata.ssh_user"
  let volumes ← volumeAttrs F raw items
  let role := (Assoc.lookup "role" metadata).getD (.str "none")
  let groups ← openstackGroups F (parseDict items "image" '_')
    (parseDict items "flavor" '_') metadata
    (← raw.get "region" (.str ""))
  return ⟨name, Assoc.insertAll vars (lateAttrs ansibleHost sshUser volumes role), groups⟩

/-- `calculate_mantl_vars`. -/
def calculateMantlVars (host : Host) : Host :=
  let isServer := ((Assoc.lookup "role" host.attrs).getD (.str "")).isStr "control"
  let attrs := Assoc.insert "consul_is_server" (.bool isServer) host.attrs
  { host with
    attrs
    groups := if ((Assoc.lookup "publicly_routable" attrs).getD (.bool false)).truthy
      then host.groups ++ ["publicly_routable"] else host.groups }

/-- `openstack_host`. -/
def openstackHost (F : Format) (resource : Value) : Except Exc Host := do
  return calculateMantlVars (← openstackHostInner F resource)

/-! ## What the variables of an instance come from -/

section
variable {F : Format} {resource raw : Value} {items : Flat} {host : Host} {key : String}

theorem items_eq_ok (h : raw.items = .ok items) : raw = .dict items := by
  cases raw <;> cases h
  rfl

theorem lookup_of_getItem {v : Value} (h : Value.getItem (.dict items) key = .ok v) :
    Assoc.lookup key items = some v := by
  rw [Value.getItem_dict] at h
  split at h <;> cases h
  assumption

theorem asStr_eq_ok {v : Value} {s : String} (h : asStr v = .ok s) : v = .str s := by
  cases v <;> cases h
  rfl

/-- The variables of volumes have names of their own. -/
theorem not_mem_volumeAttrs {volumes : Flat} (h : volumeAttrs F raw items = .ok volumes)
    (hkey : startsWith key "disk_volume_device_" = false) : key ∉ Assoc.keys volumes := by
  have hnot : ∀ i : Nat, key ≠ "disk_volume_device_" ++ toString i := by
    rintro i rfl
    rw [startsWith_append] at hkey
    cases hkey
  unfold volumeAttrs at h
  obtain ⟨count, -, h⟩ := bind_eq_ok.1 h
  cases count with
  | none =>
    cases h
    exact List.not_mem_nil
  | some count =>
    obtain ⟨n, -, h⟩ := bind_eq_ok.1 h
    split at h
    · cases h
      intro hmem
      obtain ⟨q, hq, rfl⟩ := List.mem_map.1 hmem
      obtain ⟨p, -, rfl⟩ := List.mem_map.1 hq
      exact hnot p.2 rfl
    · cases h
      exact List.not_mem_nil

/-- The variables that are set after the others, by name. -/
def isLateVar (key : String) : Bool :=
  key = "ansible_host" || key = "publicly_routable" || key = "ansible_ssh_user" || key = "role" ||
    key = "consul_is_server" || startsWith key "disk_volume_device_"

/-- The other variables are left as they are. -/
theorem lookup_lateAttrs {volumes base : Flat} (h : volumeAttrs F raw items = .ok volumes)
    (hkey : isLateVar key = false) (ansibleHost : Value) (sshUser : Option Value) (role : Value) :
    Assoc.lookup key (Assoc.insertAll base (lateAttrs ansibleHost sshUser volumes role)) =
      Assoc.lookup key base := by
  simp only [isLateVar, Bool.or_eq_false_iff, decide_eq_false_iff_not] at hkey
  obtain ⟨⟨⟨⟨⟨hhost, hpublic⟩, hssh⟩, hrole⟩, -⟩, hdisk⟩ := hkey
  have hvolumes := not_mem_volumeAttrs h hdisk
  refine Assoc.lookup_insertAll_of_not_mem fun hmem => ?_
  cases sshUser <;>
    simp_all [lateAttrs]

/-- An instance is publicly routable. -/
theorem lookup_publicly_routable {volumes base : Flat} (h : volumeAttrs F raw items = .ok volumes)
    (ansibleHost : Value) (sshUser : Option Value) (role : Value) :
    Assoc.lookup "publicly_routable"
      (Assoc.insertAll base (lateAttrs ansibleHost sshUser volumes role)) = some (.bool true) := by
  have hdisk : startsWith "publicly_routable" "disk_volume_device_" = false := by decide
  have hvolumes := not_mem_volumeAttrs h hdisk
  have hrest : "publicly_routable" ∉
      Assoc.keys ((sshUser.map ("ansible_ssh_user", ·)).toList ++ volumes ++ [("role", role)]) := by
    cases sshUser <;> simp [hvolumes]
  rw [lateAttrs, List.append_assoc, List.append_assoc, ← List.append_assoc _ volumes,
    ← Assoc.insertAll_insertAll, Assoc.lookup_insertAll_of_not_mem hrest]
  exact Assoc.lookup_insert_self _ _ _

/-- `calculate_mantl_vars` sets one variable. -/
theorem lookup_calculateMantlVars (host : Host) (hkey : key ≠ "consul_is_server") :
    Assoc.lookup key (calculateMantlVars host).attrs = Assoc.lookup key host.attrs :=
  Assoc.lookup_insert_of_ne hkey.symm _ _

/-- The variables set first on which the rest depends. -/
theorem openstackVars_spec {vars : Flat} (h : openstackVars raw items = .ok vars) :
    Assoc.lookup "metadata" vars = some (.dict (parseDict items "metadata" '.')) ∧
      Assoc.lookup "image" vars = some (.dict (parseDict items "image" '_')) ∧
      Assoc.lookup "flavor" vars = some (.dict (parseDict items "flavor" '_')) ∧
      (∃ region, Assoc.lookup "region" vars = some region ∧
        raw.get "region" (.str "") = .ok region) ∧
      (∃ port, Assoc.lookup "port_id" vars = some port ∧ raw.getItem "network.0.port" = .ok port) ∧
      "access_ip" ∈ Assoc.keys vars := by
  simp only [openstackVars, bind_eq_ok] at h
  obtain ⟨accessIp4, -, accessIp6, -, fixedIp, -, id, -, keyPair, -, network, -, region, hregion,
    port, hport, floating, -, h⟩ := h
  cases h
  exact ⟨rfl, rfl, rfl, ⟨region, rfl, hregion⟩, ⟨port, rfl, hport⟩, by simp⟩

/-- What the parser makes of an instance: the variables on which the rest depends, and the
groups. -/
theorem openstackHost_spec (h : openstackHost F resource = .ok host) :
    ∃ items port region groups, resource.getPath ["primary", "attributes"] = .ok (.dict items) ∧
      Assoc.lookup "name" items = some (.str host.name) ∧
      Assoc.lookup "network.0.port" items = some port ∧
      Assoc.lookup "port_id" host.attrs = some port ∧
      Assoc.lookup "metadata" host.attrs = some (.dict (parseDict items "metadata" '.')) ∧
      Assoc.lookup "image" host.attrs = some (.dict (parseDict items "image" '_')) ∧
      Assoc.lookup "flavor" host.attrs = some (.dict (parseDict items "flavor" '_')) ∧
      Assoc.lookup "region" host.attrs = some region ∧
      "access_ip" ∈ Assoc.keys host.attrs ∧
      openstackGroups F (parseDict items "image" '_') (parseDict items "flavor" '_')
        (parseDict items "metadata" '.') region = .ok groups ∧
      host.groups = groups ++ ["publicly_routable"] := by
  simp only [openstackHost, openstackHostInner, bind_eq_ok] at h
  obtain ⟨inner, ⟨raw, hraw, nameValue, hnameValue, name, hname, items, hitems, vars, hvars,
    ansibleHost, -, sshUser, -, volumes, hvolumes, region', hregion', groups, hgroups, hinner⟩,
      h⟩ := h
  cases hinner
  cases h
  cases items_eq_ok hitems
  obtain ⟨hmetadata, himage, hflavor, ⟨region, hregionVar, hregion⟩, ⟨port, hportVar, hport⟩,
    haccess⟩ := openstackVars_spec hvars
  obtain rfl : region = region' := Except.ok.inj (hregion.symm.trans hregion')
  have hlate : ∀ {key : String}, isLateVar key = false →
      Assoc.lookup key
        (calculateMantlVars ⟨name, Assoc.insertAll vars (lateAttrs ansibleHost sshUser
        volumes ((Assoc.lookup "role" (parseDict items "metadata" '.')).getD (.str "none"))),
        groups⟩).attrs = Assoc.lookup key vars := by
    intro key hkey
    rw [lookup_calculateMantlVars _ (fun he => by rw [he] at hkey; cases hkey),
      lookup_lateAttrs hvolumes hkey]
  refine ⟨items, port, region, groups, hraw, ?_, lookup_of_getItem hport,
    (hlate (by decide)).trans hportVar, (hlate (by decide)).trans hmetadata,
    (hlate (by decide)).trans himage, (hlate (by decide)).trans hflavor,
    (hlate (by decide)).trans hregionVar, ?_, hgroups, ?_⟩
  · rw [lookup_of_getItem hnameValue]
    exact congrArg some (asStr_eq_ok hname)
  · rwa [← Assoc.lookup_isSome, hlate (by decide), Assoc.lookup_isSome]
  · rw [calculateMantlVars]
    simp only [Assoc.lookup_insert_of_ne (by decide : "consul_is_server" ≠ "publicly_routable"),
      lookup_publicly_routable hvolumes]
    rfl

end

/-! ## The metadata of an instance -/

/-- The variables of a host have its metadata as it is. -/
def ReportsMetadata (host : Host) (d : OrdDict String Value) : Prop :=
  ∃ metadata, Assoc.lookup "metadata" host.attrs = some (.dict metadata) ∧
    ∀ key, Assoc.lookup key metadata = d.get? key

/-- The groups of an instance, those of its metadata apart. -/
def otherGroups (F : Format) (imageId flavorName region : Value) (kubesprayGroups : String) :
    List String :=
  ["os_image=" ++ F.str imageId, "os_flavor=" ++ F.str flavorName, "os_region=" ++ F.str region] ++
    split ',' kubesprayGroups ++ ["publicly_routable"]

/-- The groups of a host have one for each entry of its metadata, besides the others. -/
def DerivesGroups (F : Format) (host : Host) (d : OrdDict String Value) : Prop :=
  ∃ image imageId flavor flavorName region kubesprayGroups,
    Assoc.lookup "image" host.attrs = some (.dict image) ∧
    Assoc.lookup "id" image = some imageId ∧
    Assoc.lookup "flavor" host.attrs = some (.dict flavor) ∧
    Assoc.lookup "name" flavor = some flavorName ∧
    Assoc.lookup "region" host.attrs = some region ∧
    (d.get? "kubespray_groups").getD (.str "") = .str kubesprayGroups ∧
    host.groups.Perm (otherGroups F imageId flavorName region kubesprayGroups ++
      d.items.map (metadataGroup F))

section
variable {F : Format}

/-- What `openstack_host` derives its groups from. -/
theorem openstackGroups_perm {image flavor metadata : Flat} {region : Value} {groups : List String}
    (h : openstackGroups F image flavor metadata region = .ok groups) :
    ∃ imageId flavorName kubesprayGroups, Assoc.lookup "id" image = some imageId ∧
      Assoc.lookup "name" flavor = some flavorName ∧
      (Assoc.lookup "kubespray_groups" metadata).getD (.str "") = .str kubesprayGroups ∧
      (groups ++ ["publicly_routable"]).Perm
        (otherGroups F imageId flavorName region kubesprayGroups ++
          metadata.map (metadataGroup F)) := by
  simp only [openstackGroups, bind_eq_ok] at h
  obtain ⟨imageId, himage, flavorName, hflavor, h⟩ := h
  split at h
  · next s hs =>
    cases h
    refine ⟨imageId, flavorName, s, lookup_of_getItem himage, lookup_of_getItem hflavor, hs, ?_⟩
    rw [otherGroups]
    simp only [List.append_assoc, List.cons_append, List.nil_append]
    refine .cons _ (.cons _ ?_)
    exact List.perm_append_comm.trans (by simp)
  · cases h

/-- The group of the count is not the group of another entry. -/
theorem metadataGroup_count_not_mem {d : OrdDict String Value} (hcount : "%" ∉ d.keys) (n : Nat) :
    metadataGroup F ("%", .int n) ∉ d.items.map (metadataGroup F) := by
  intro hmem
  obtain ⟨⟨key, v⟩, hq, he⟩ := List.mem_map.1 hmem
  have hgroup : key ++ "=" ++ F.str v = "%" ++ "=" ++ toString n := by
    simp only [metadataGroup, String.append_assoc, String.append_right_inj] at he
    have hnumber : F.str (.int n) = toString n := rfl
    rw [← hnumber, String.append_assoc, String.append_assoc, he]
  -- the sign stands once in the group of the count, so the key has none
  have hsign : '=' ∉ key.toList := by
    have hcounts := congrArg (fun s => s.toList.count '=') hgroup
    have hdigits := List.count_eq_zero.2 (not_mem_toString (c := '=') (by decide) n)
    simp only [String.toList_append, List.count_append, hdigits] at hcounts
    have hone : "=".toList.count '=' = 1 := by decide
    have hzero : "%".toList.count '=' = 0 := by decide
    rw [← List.count_eq_zero]
    omega
  have hsep : "=" = String.singleton '=' := rfl
  have hsplit := congrArg (splitOnce '=') hgroup
  rw [hsep, splitOnce_append hsign, splitOnce_append (by decide)] at hsplit
  cases congrArg Prod.fst (Option.some.inj hsplit)
  exact hcount (Assoc.mem_keys_of_mem hq)

/-- The parsed metadata has the groups of the true one iff it is the true one. -/
theorem perm_metadataGroup_iff {draw : Nat → Nat} {n : Nat} {attributes : OrdDict String Value}
    (hdot : ∀ q ∈ attributes.items, '.' ∉ q.1.toList) {r : Flat × Nat}
    (h : convertToV3Structure draw (.dict attributes.items) "" n = .ok r)
    {d : OrdDict String Value} (hd : attributes.get? "metadata" = some (.dict d.items)) :
    ((parseDict r.1 "metadata" '.').map (metadataGroup F)).Perm (d.items.map (metadataGroup F)) ↔
      "%" ∈ d.keys ∧ "#" ∉ d.keys := by
  have hlookup := lookup_parseDict hdot h hd
  have hnd : (Assoc.keys (parseDict r.1 "metadata" '.')).Nodup :=
    Assoc.nodup_keys_insertAll (l := []) .nil _
  constructor
  · intro hperm
    have hcount : "%" ∈ d.keys := by
      by_contra hcount
      have hnone : d.get? "%" = none := Assoc.lookup_eq_none.2 hcount
      have hentry := hlookup "%"
      rw [hnone, if_neg (by decide), if_pos rfl, Option.none_or] at hentry
      refine metadataGroup_count_not_mem (F := F) hcount d.size (hperm.subset ?_)
      exact List.mem_map_of_mem (Assoc.mem_of_lookup hentry)
    refine ⟨hcount, fun hmark => ?_⟩
    -- the parsed metadata has no other keys, and as many
    have hsubset : Assoc.keys (parseDict r.1 "metadata" '.') ⊆ d.keys := by
      intro key hkey
      rw [← Assoc.lookup_isSome, hlookup key] at hkey
      by_cases hp : key = "%"
      · exact hp ▸ hcount
      · rw [if_neg hp, Option.or_none] at hkey
        split at hkey
        · cases hkey
        · exact Assoc.lookup_isSome.1 hkey
    have hlength : d.keys.length ≤ (Assoc.keys (parseDict r.1 "metadata" '.')).length := by
      have hlen := hperm.length_eq
      rw [List.length_map, List.length_map] at hlen
      rw [Assoc.length_keys, hlen]
      exact (Assoc.length_keys _).le
    have hkeys := (List.subperm_of_subset hnd hsubset).perm_of_length_le hlength
    have hsome := Assoc.lookup_isSome.2 (hkeys.symm.subset hmark)
    rw [hlookup, if_pos rfl] at hsome
    cases hsome
  · intro hcond
    refine (Assoc.perm_of_lookup hnd d.nodup ?_).map _
    exact (parseDict_eq_iff hdot h hd).2 hcond

/-- The attributes of an instance with this metadata. -/
def exampleInstance (metadata : List (String × Value)) : OrdDict String Value where
  items := [("name", .str "vm"), ("id", .str "i1"), ("access_ip_v4", .str "10.0.0.1"),
    ("access_ip_v6", .str ""), ("key_pair", .str "k"), ("image_id", .str "im"),
    ("flavor_name", .str "small"), ("metadata", .dict metadata),
    ("network", .list [.dict [("fixed_ip_v4", .str "10.0.0.1"), ("port", .str "p1")]])]
  nodup := by simp

/-- The resource with these flat attributes. -/
def exampleResource (attributes : Flat) : Value :=
  .dict [("primary", .dict [("attributes", .dict attributes)])]

/-- The metadata of an ordinary instance is read with a further entry for the count, which makes a
further group. -/
theorem map_attributes_survive_fails :
    ∃ r host, convertToV3Structure (fun _ => 7)
        (.dict (exampleInstance [("role", .str "worker")]).items) "" 0 = .ok r ∧
      parseDict r.1 "metadata" '.' = [("%", .int 1), ("role", .str "worker")] ∧
      openstackHost exampleFormat (exampleResource r.1) = .ok host ∧
      Assoc.lookup "metadata" host.attrs =
        some (.dict [("%", .int 1), ("role", .str "worker")]) ∧
      "os_metadata_%=1" ∈ host.groups :=
  ⟨_, _, rfl, rfl, rfl, rfl, by decide⟩

/-- An object is read back from the flat form as it was iff it has the key `%` and not the key `#`;
exactly then the host of an instance has the metadata of the instance and one group for each of its
entries. -/
theorem map_attributes_survive_iff (draw : Nat → Nat) (n : Nat) (attributes : OrdDict String Value)
    (hdot : ∀ q ∈ attributes.items, '.' ∉ q.1.toList) (r : Flat × Nat)
    (h : convertToV3Structure draw (.dict attributes.items) "" n = .ok r) :
    (∀ (k : String) (d : OrdDict String Value), attributes.get? k = some (.dict d.items) →
      ((∀ key, Assoc.lookup key (parseDict r.1 k '.') = d.get? key) ↔
        "%" ∈ d.keys ∧ "#" ∉ d.keys)) ∧
    ∀ (F : Format) (resource : Value) (host : Host) (d : OrdDict String Value),
      resource.getPath ["primary", "attributes"] = .ok (.dict r.1) →
      openstackHost F resource = .ok host →
      attributes.get? "metadata" = some (.dict d.items) →
      (ReportsMetadata host d ↔ "%" ∈ d.keys ∧ "#" ∉ d.keys) ∧
        (DerivesGroups F host d ↔ "%" ∈ d.keys ∧ "#" ∉ d.keys) := by
  refine ⟨fun k d hd => parseDict_eq_iff hdot h hd, fun F resource host d hpath hhost hd => ?_⟩
  obtain ⟨items, port, region, groups, hitems, -, -, -, hmetadata, himage, hflavor, hregion, -,
    hgroups, hhostGroups⟩ := openstackHost_spec hhost
  cases hpath.symm.trans hitems
  obtain ⟨imageId, flavorName, kubesprayGroups, hid, hname, hkubespray, hperm⟩ :=
    openstackGroups_perm hgroups
  rw [← hhostGroups] at hperm
  rw [lookup_parseDict hdot h hd, if_neg (by decide), if_neg (by decide),
    Option.or_none] at hkubespray
  constructor
  · rw [← parseDict_eq_iff hdot h hd]
    constructor
    · rintro ⟨metadata, hvar, hget⟩
      cases hvar.symm.trans hmetadata
      exact hget
    · intro hget
      exact ⟨_, hmetadata, hget⟩
  · rw [← perm_metadataGroup_iff (F := F) hdot h hd]
    constructor
    · rintro ⟨image', imageId', flavor', flavorName', region', kubesprayGroups', himage', hid',
        hflavor', hname', hregion', hkubespray', hperm'⟩
      cases himage'.symm.trans himage
      cases hid'.symm.trans hid
      cases hflavor'.symm.trans hflavor
      cases hname'.symm.trans hname
      cases hregion'.symm.trans hregion
      cases hkubespray'.symm.trans hkubespray
      exact (List.perm_append_left_iff _).1 (hperm.symm.trans hperm')
    · intro hsame
      exact ⟨_, imageId, _, flavorName, region, kubesprayGroups, himage, hid, hflavor, hname,
        hregion, hkubespray, hperm.trans ((List.perm_append_left_iff _).2 hsame)⟩

/-- Metadata with the key of the count. -/
def exampleMetadata : OrdDict String Value where
  items := [("role", .str "worker"), ("%", .str "1")]
  nodup := by decide

theorem map_attributes_survive_example :
    ∃ r host, convertToV3Structure (fun _ => 7)
      (.dict (exampleInstance exampleMetadata.items).items)
        "" 0 = .ok r ∧
      openstackHost exampleFormat (exampleResource r.1) = .ok host ∧
      ReportsMetadata host exampleMetadata ∧ DerivesGroups exampleFormat host exampleMetadata := by
  obtain ⟨r, hr⟩ : ∃ r, convertToV3Structure (fun _ => 7)
      (.dict (exampleInstance exampleMetadata.items).items) "" 0 = .ok r := ⟨_, rfl⟩
  obtain ⟨host, hhost⟩ : ∃ host, openstackHost exampleFormat (exampleResource r.1) = .ok host := by
    cases hr
    exact ⟨_, rfl⟩
  have h := (map_attributes_survive_iff (fun _ => 7) 0 (exampleInstance exampleMetadata.items)
    (by decide) r hr).2 exampleFormat (exampleResource r.1) host exampleMetadata rfl hhost rfl
  exact ⟨r, host, hr, hhost, h.1.2 (by decide), h.2.2 (by decide)⟩

end

end Terraform
