import Kubespray.Terraform.Hosts

/-!
# From resources to an inventory

`iterhosts`, `iterips`, `iter_host_ips`, `query_list` and the part of `main` that puts them together
for `--list`, from `contrib/terraform/terraform.py`. `sameVariables_iff` compares the
variables of a host in two collections of resources.
-/

open Py

namespace Terraform

/-! ## The steps -/

/-- `resource_type, name = key.split('.', 1)`; only the type is used. -/
def resourceType (key : String) : Except Exc String :=
  match splitOnce '.' key with
  | none => throw (.valueError "not enough values to unpack (expected 2, got 1)")
  | some (type, _) => return type

/-- `PARSERS`. -/
def parsers : List (String × (Format → Value → Except Exc Host)) :=
  [("metal_device", metalDevice), ("openstack_compute_instance_v2", openstackHost)]

/-- `iterhosts`. The program asks for the next host after it is done with the last one, so what it
does with a host comes in here. -/
def iterhosts (F : Format) (yield : Host → Except Exc Host) : List Entry → Except Exc (List Host)
  | [] => return []
  | e :: resources => do
    let type ← resourceType e.key
    match Assoc.lookup type parsers with
    | none => iterhosts F yield resources
    | some parser =>
      let host ← yield (← parser F e.resource)
      return host :: (← iterhosts F yield resources)

/-- The type of the associations of floating IPs. -/
def associateType : String := "openstack_networking_floatingip_associate_v2"

/-- `openstack_floating_ips`. A port that is no text, which no provider has, is an error here. -/
def openstackFloatingIps (resource : Value) : Except Exc (String × Value) := do
  let raw ← resource.getPath ["primary", "attributes"]
  return (← asStr (← raw.getItem "port_id"), ← raw.getItem "floating_ip")

/-- One step of `dict(iterips(resources))`. -/
def addFloatingIp (ips : Flat) (e : Entry) : Except Exc Flat := do
  let type ← resourceType e.key
  if type = associateType then
    let (port, ip) ← openstackFloatingIps e.resource
    return Assoc.insert port ip ips
  else return ips

/-- `dict(iterips(resources))`. -/
def iterips (resources : List Entry) : Except Exc Flat := resources.foldlM addFloatingIp []

/-- `ips[port_id]`, guarded by `if port_id in ips`. -/
def floatingIp (ips : Flat) : Value → Except Exc (Option Value)
  | .str port => .ok (Assoc.lookup port ips)
  | .list _ | .dict _ => .error .typeError
  | _ => .ok none

/-- The variables that a floating IP sets. -/
def floatingAttrs (ip : Value) : Flat :=
  [("access_ip_v4", ip), ("access_ip", ip), ("public_ipv4", ip), ("ansible_host", ip)]

/-- `iter_host_ips`, for one host. -/
def iterHostIps (ips : Flat) (host : Host) : Except Exc Host := do
  let port ← (Value.dict host.attrs).getItem "port_id"
  let attrs := match ← floatingIp ips port with
    | some ip => Assoc.insertAll host.attrs (floatingAttrs ip)
    | none => host.attrs
  let metadata ← (Value.dict attrs).getItem "metadata"
  if (← metadata.getIfIn "use_access_ip").any (·.isStr "0") then
    let attrs ← (← (Value.dict attrs).delItem "access_ip").items
    return { host with attrs }
  else return { host with attrs }

/-- The name of a group as Ansible takes it. -/
def groupName (group : String) : String := if group = "" then "all" else group

/-- A host is appended to a group. -/
def addToGroup (name : String) (groups : List (String × List String)) (group : String) :
    List (String × List String) :=
  Assoc.insert (groupName group)
    ((Assoc.lookup (groupName group) groups).getD [] ++ [name]) groups

/-- `query_list`. The order in which a set is gone through, which decides on the order of the groups
only, is that of the last occurrences. -/
def queryList (hosts : List Host) : Value :=
  let groups :=
    hosts.foldl (fun groups host => host.groups.dedup.foldl (addToGroup host.name) groups) []
  let hostvars := Assoc.insertAll [] (hosts.map fun host => (host.name, Value.dict host.attrs))
  .dict (Assoc.insert "_meta" (.dict [("hostvars", .dict hostvars)])
    (groups.map fun q => (q.1, .dict [("hosts", .list (q.2.map .str))])))

/-- What `main` does with each host: the second pass is made `if ips`. -/
def secondPass (ips : Flat) : Host → Except Exc Host :=
  if ips.isEmpty then .ok else iterHostIps ips

/-- The output of `main` for `--list`. -/
def inventory (F : Format) (resources : List Entry) : Except Exc Value := do
  let ips ← iterips resources
  return queryList (← iterhosts F (secondPass ips) resources)

/-! ## Well-formed collections -/

/-- The parser of a resource. -/
def parserOf (e : Entry) : Option (Format → Value → Except Exc Host) :=
  (resourceType e.key).toOption.bind fun type => Assoc.lookup type parsers

/-- The host of a resource. -/
def hostOf (F : Format) (e : Entry) : Option Host :=
  (parserOf e).bind fun parser => (parser F e.resource).toOption

/-- The port and the address of an association. -/
def associationOf (e : Entry) : Option (String × Value) :=
  if resourceType e.key = .ok associateType then (openstackFloatingIps e.resource).toOption else
    none

/-- Some resource is a device. -/
def HasDevice (resources : List Entry) : Prop :=
  ∃ e ∈ resources, resourceType e.key = .ok "metal_device"

/-- Some resource is an association of a floating IP. -/
def HasAssociation (resources : List Entry) : Prop :=
  ∃ e ∈ resources, resourceType e.key = .ok associateType

/-- Each resource has what its own parser reads, no two hosts have one name, and no port has two
associations. -/
structure WellFormed (F : Format) (resources : List Entry) : Prop where
  /-- The type of a resource is the first part of its key. -/
  typed : ∀ e ∈ resources, ∃ type, resourceType e.key = .ok type
  /-- Instances are parsed. -/
  parsed : ∀ e ∈ resources, ∀ parser, parserOf e = some parser →
    ∃ host, parser F e.resource = .ok host
  /-- The port of an instance is a single value. -/
  port : ∀ e ∈ resources, ∀ host, hostOf F e = some host →
    ∀ port, Assoc.lookup "port_id" host.attrs = some port → IsScalar port
  /-- Associations are parsed. -/
  associated : ∀ e ∈ resources, resourceType e.key = .ok associateType →
    ∃ association, openstackFloatingIps e.resource = .ok association
  /-- The names of the hosts are distinct. -/
  names : ((resources.filterMap (hostOf F)).map Host.name).Nodup
  /-- The ports of the associations are distinct. -/
  ports : (Assoc.keys (resources.filterMap associationOf)).Nodup

section
variable {F : Format} {resources : List Entry}

/-- The hosts of well-formed resources are those of the instances. -/
theorem iterhosts_eq (h : WellFormed F resources) (yield : Host → Except Exc Host) :
    iterhosts F yield resources = (resources.filterMap (hostOf F)).mapM yield := by
  obtain ⟨htyped, hparsed, -, -, -, -⟩ := h
  induction resources with
  | nil => rfl
  | cons e resources ih =>
    have ih := ih (fun e he => htyped e (.tail _ he)) fun e he => hparsed e (.tail _ he)
    obtain ⟨type, htype⟩ := htyped e (.head _)
    rw [iterhosts, htype, ok_bind, List.filterMap_cons]
    cases hlookup : Assoc.lookup type parsers with
    | none =>
      have hhost : hostOf F e = none := by
        rw [hostOf, parserOf, htype]
        simp [Except.toOption, hlookup]
      rw [hhost]
      exact ih
    | some parser =>
      have hparser : parserOf e = some parser := by
        rw [parserOf, htype]
        exact hlookup
      obtain ⟨host, hhost⟩ := hparsed e (.head _) parser hparser
      have hhostOf : hostOf F e = some host := by
        rw [hostOf, hparser, Option.bind_some, hhost]
        rfl
      dsimp only
      rw [hhostOf, hhost, ok_bind, List.mapM_cons, ih]

/-- The floating IPs of well-formed resources are those of the associations. -/
theorem iterips_eq (h : WellFormed F resources) :
    iterips resources = .ok (resources.filterMap associationOf) := by
  obtain ⟨htyped, -, -, hassociated, -, hports⟩ := h
  have hloop : ∀ ips, resources.foldlM addFloatingIp ips =
      .ok (Assoc.insertAll ips (resources.filterMap associationOf)) := by
    clear hports
    induction resources with
    | nil => exact fun ips => rfl
    | cons e resources ih =>
      have ih := ih (fun e he => htyped e (.tail _ he)) fun e he => hassociated e (.tail _ he)
      intro ips
      obtain ⟨type, htype⟩ := htyped e (.head _)
      rw [List.foldlM_cons, addFloatingIp, htype, ok_bind, List.filterMap_cons, associationOf,
        htype]
      by_cases hassociate : type = associateType
      · obtain ⟨⟨port, ip⟩, hassociation⟩ := hassociated e (.head _) (hassociate ▸ htype)
        rw [if_pos hassociate, hassociate, if_pos rfl, hassociation]
        exact ih _
      · have hne : (Except.ok type : Except Exc String) ≠ .ok associateType :=
          fun he => hassociate (Except.ok.inj he)
        rw [if_neg hassociate, if_neg hne]
        exact ih ips
  rw [iterips, hloop]
  exact congrArg Except.ok (Assoc.insertAll_append (by simpa using hports))

end

/-! ## The hosts with their floating IPs -/

/-- The floating IP of a port that is a single value. -/
def ownIp (ips : Flat) : Value → Option Value
  | .str port => Assoc.lookup port ips
  | _ => none

/-- The metadata keeps the traffic of the cluster off the floating IPs. -/
def keepsPrivate (metadata : Flat) : Bool :=
  (Assoc.lookup "use_access_ip" metadata).any (·.isStr "0")

section
variable {F : Format} {resources : List Entry} {ips : Flat} {host : Host} {port : Value}

theorem floatingIp_eq (hport : IsScalar port) (ips : Flat) :
    floatingIp ips port = .ok (ownIp ips port) := by
  cases port with
  | list xs => exact hport.elim
  | dict kvs => exact hport.elim
  | _ => rfl

/-- The variables with the floating IP, if there is one. -/
def withFloatingIp (ip : Option Value) (attrs : Flat) : Flat :=
  match ip with
  | some ip => Assoc.insertAll attrs (floatingAttrs ip)
  | none => attrs

theorem lookup_withFloatingIp {key : String}
    (hkey : key ∉ ["access_ip_v4", "access_ip", "public_ipv4", "ansible_host"]) (ip : Option Value)
    (attrs : Flat) : Assoc.lookup key (withFloatingIp ip attrs) = Assoc.lookup key attrs := by
  cases ip with
  | none => rfl
  | some ip => exact Assoc.lookup_insertAll_of_not_mem hkey

theorem mem_keys_withFloatingIp {key : String} {attrs : Flat} (hkey : key ∈ Assoc.keys attrs)
    (ip : Option Value) : key ∈ Assoc.keys (withFloatingIp ip attrs) := by
  cases ip with
  | none => exact hkey
  | some ip => exact Assoc.mem_keys_insertAll.2 (.inl hkey)

/-- An instance gets its floating IP and loses `access_ip` if its metadata says so. -/
theorem iterHostIps_openstack {metadata : Flat}
    (hport : Assoc.lookup "port_id" host.attrs = some port) (hscalar : IsScalar port)
    (hmetadata : Assoc.lookup "metadata" host.attrs = some (.dict metadata))
    (haccess : "access_ip" ∈ Assoc.keys host.attrs) (ips : Flat) :
    iterHostIps ips host = .ok { host with
      attrs := if keepsPrivate metadata
        then Assoc.erase "access_ip" (withFloatingIp (ownIp ips port) host.attrs)
        else withFloatingIp (ownIp ips port) host.attrs } := by
  have hmetadata' : (Value.dict (withFloatingIp (ownIp ips port) host.attrs)).getItem "metadata" =
      .ok (.dict metadata) := by
    rw [Value.getItem_dict, lookup_withFloatingIp (by decide), hmetadata]
  have hport' : (Value.dict host.attrs).getItem "port_id" = .ok port := by
    rw [Value.getItem_dict, hport]
  rw [iterHostIps, hport', ok_bind, floatingIp_eq hscalar, ok_bind]
  change ((Value.dict (withFloatingIp (ownIp ips port) host.attrs)).getItem "metadata" >>= _) = _
  rw [hmetadata', ok_bind, Value.getIfIn_dict, ok_bind, ← keepsPrivate]
  cases keepsPrivate metadata with
  | false => rfl
  | true =>
    have hdel : (Value.dict (withFloatingIp (ownIp ips port) host.attrs)).delItem "access_ip" =
        .ok (.dict (Assoc.erase "access_ip" (withFloatingIp (ownIp ips port) host.attrs))) :=
      if_pos (mem_keys_withFloatingIp haccess _)
    change ((Value.dict (withFloatingIp (ownIp ips port) host.attrs)).delItem "access_ip" >>= _) = _
    rw [hdel]
    rfl

/-- A device has no port. -/
theorem iterHostIps_metal {resource : Value} (h : metalDevice F resource = .ok host) (ips : Flat) :
    iterHostIps ips host = .error (.keyError "port_id") := by
  have hport : "port_id" ∉ Assoc.keys host.attrs := by
    simp only [metalDevice, bind_eq_ok] at h
    obtain ⟨raw, -, nameValue, -, name, -, id, -, items, -, os, -, lockedValue, -, locked, -, plan,
        -,
      projectId, -, state, -, address0, -, address1, -, address2, -, osText, -, stateText, -,
      planText, -, tags, -, h⟩ := h
    cases h
    dsimp only
    split
    · simp
    · simp
  rw [iterHostIps, Value.getItem_dict, Assoc.lookup_eq_none.2 hport]
  rfl

/-- The name of a host stays. -/
theorem name_iterHostIps {host' : Host} (h : iterHostIps ips host = .ok host') :
    host'.name = host.name := by
  simp only [iterHostIps, bind_eq_ok] at h
  obtain ⟨port, -, ip, -, metadata, -, use, -, h⟩ := h
  split at h
  · simp only [bind_eq_ok] at h
    obtain ⟨attrs, -, items, -, h⟩ := h
    cases h
    rfl
  · cases h
    rfl

/-- `query_list` has the variables of each host. -/
theorem getPath_queryList {hosts : List Host} (hnd : (hosts.map Host.name).Nodup)
    (hhost : host ∈ hosts) :
    (queryList hosts).getPath ["_meta", "hostvars", host.name] = .ok (.dict host.attrs) := by
  have hvars : (Assoc.keys (hosts.map fun host => (host.name, Value.dict host.attrs))).Nodup := by
    rw [Assoc.keys, List.map_map]
    exact hnd
  have hlookup : Assoc.lookup host.name
      (Assoc.insertAll [] (hosts.map fun host => (host.name, Value.dict host.attrs))) =
        some (.dict host.attrs) := by
    rw [Assoc.lookup_insertAll hvars,
      Assoc.lookup_of_mem hvars (List.mem_map_of_mem hhost)]
    rfl
  simp only [queryList, Value.getPath_cons, Value.getItem_dict, Assoc.lookup_insert_self, ok_bind,
    Assoc.lookup_cons, if_pos, hlookup, Value.getPath_nil]

/-- A host comes from a device or from an instance. -/
theorem hostOf_eq_some {e : Entry} (h : hostOf F e = some host) :
    resourceType e.key = .ok "metal_device" ∧ metalDevice F e.resource = .ok host ∨
      resourceType e.key = .ok "openstack_compute_instance_v2" ∧
        openstackHost F e.resource = .ok host := by
  have htoOption : ∀ {α : Type} {x : Except Exc α} {a : α}, x.toOption = some a → x = .ok a := by
    intro α x a hx
    cases x <;> cases hx
    rfl
  obtain ⟨parser, hparser, hresource⟩ := Option.bind_eq_some_iff.1 h
  obtain ⟨type, htype, hlookup⟩ := Option.bind_eq_some_iff.1 hparser
  have hmem := Assoc.mem_of_lookup hlookup
  rw [htoOption htype]
  rcases List.mem_pair.1 hmem with he | he
  · cases he
    exact .inl ⟨rfl, htoOption hresource⟩
  · cases he
    exact .inr ⟨rfl, htoOption hresource⟩

/-- A well-formed collection has an association iff `ips` is not empty. -/
theorem associations_isEmpty (h : WellFormed F resources) :
    (resources.filterMap associationOf).isEmpty ↔ ¬ HasAssociation resources := by
  rw [List.isEmpty_iff, List.filterMap_eq_nil_iff, HasAssociation]
  push Not
  refine forall₂_congr fun e he => ?_
  rw [associationOf]
  constructor
  · intro hnone htype
    obtain ⟨association, hassociation⟩ := h.associated e he htype
    rw [if_pos htype, hassociation] at hnone
    cases hnone
  · exact fun hne => if_neg hne

/-- What the second pass makes of the variables of an instance. -/
theorem secondPass_openstack {e : Entry} {items : Flat} (h : WellFormed F resources)
    (he : e ∈ resources) (hhost : hostOf F e = some host)
    (htype : resourceType e.key = .ok "openstack_compute_instance_v2")
    (hitems : e.resource.getPath ["primary", "attributes"] = .ok (.dict items)) (ips : Flat) :
    ∃ port, Assoc.lookup "port_id" host.attrs = some port ∧
      "access_ip" ∈ Assoc.keys host.attrs ∧
      secondPass ips host = .ok { host with
        attrs := if ips.isEmpty then host.attrs
          else if keepsPrivate (parseDict items "metadata" '.')
          then Assoc.erase "access_ip" (withFloatingIp (ownIp ips port) host.attrs)
          else withFloatingIp (ownIp ips port) host.attrs } := by
  rcases hostOf_eq_some hhost with ⟨hdevice, -⟩ | ⟨-, hparse⟩
  · exact absurd (Except.ok.inj (htype.symm.trans hdevice)) (by decide)
  obtain ⟨items', port, region, groups, hitems', -, -, hport, hmetadata, -, -, -, haccess, -, -⟩ :=
    openstackHost_spec hparse
  cases hitems.symm.trans hitems'
  refine ⟨port, hport, haccess, ?_⟩
  rw [secondPass]
  cases ips.isEmpty with
  | true => rfl
  | false =>
    exact iterHostIps_openstack hport (h.port e he host hhost port hport) hmetadata haccess ips

/-- The pipeline succeeds iff there are not both devices and associations. -/
theorem inventory_isOk_iff (h : WellFormed F resources) :
    (∃ o, inventory F resources = .ok o) ↔ ¬ (HasDevice resources ∧ HasAssociation resources) := by
  have hpass : (∃ o, inventory F resources = .ok o) ↔
      ∃ hosts, (resources.filterMap (hostOf F)).mapM
        (secondPass (resources.filterMap associationOf)) = .ok hosts := by
    simp only [inventory, iterips_eq h, ok_bind, iterhosts_eq h, bind_eq_ok]
    constructor
    · rintro ⟨o, hosts, hhosts, -⟩
      exact ⟨hosts, hhosts⟩
    · rintro ⟨hosts, hhosts⟩
      exact ⟨_, hosts, hhosts, rfl⟩
  rw [hpass, mapM_isOk_iff]
  constructor
  · rintro hok ⟨⟨e, he, hdevice⟩, hassociation⟩
    have hparser : parserOf e = some metalDevice := by
      rw [parserOf, hdevice]
      rfl
    obtain ⟨host, hhost⟩ := h.parsed e he metalDevice hparser
    have hhostOf : hostOf F e = some host := by
      rw [hostOf, hparser, Option.bind_some, hhost]
      rfl
    obtain ⟨host', hhost'⟩ := hok host (List.mem_filterMap.2 ⟨e, he, hhostOf⟩)
    have hips : (resources.filterMap associationOf).isEmpty ≠ true :=
      fun hempty => (associations_isEmpty h).1 hempty hassociation
    rw [secondPass, if_neg hips, iterHostIps_metal hhost] at hhost'
    cases hhost'
  · intro hnot host hmem
    obtain ⟨e, he, hhost⟩ := List.mem_filterMap.1 hmem
    rcases hostOf_eq_some hhost with ⟨hdevice, -⟩ | ⟨htype, hparse⟩
    · have hempty := (associations_isEmpty h).2 fun hassociation =>
        hnot ⟨⟨e, he, hdevice⟩, hassociation⟩
      exact ⟨host, by rw [secondPass, if_pos hempty]⟩
    · obtain ⟨items, -, -, -, hitems, -⟩ := openstackHost_spec hparse
      obtain ⟨port, -, -, hsecond⟩ := secondPass_openstack h he hhost htype hitems _
      exact ⟨_, hsecond⟩

/-- The variables of a host in the output are those that the second pass leaves. -/
theorem inventory_host {e : Entry} {o : Value} (h : WellFormed F resources)
    (ho : inventory F resources = .ok o) (he : e ∈ resources) (hhost : hostOf F e = some host) :
    ∃ host', secondPass (resources.filterMap associationOf) host = .ok host' ∧
      o.getPath ["_meta", "hostvars", host.name] = .ok (.dict host'.attrs) := by
  simp only [inventory, iterips_eq h, ok_bind, iterhosts_eq h, bind_eq_ok] at ho
  obtain ⟨hosts, hhosts, ho⟩ := ho
  cases ho
  have hname : ∀ a b, secondPass (resources.filterMap associationOf) a = .ok b →
      b.name = a.name := by
    intro a b hb
    rw [secondPass] at hb
    split at hb
    · cases hb
      rfl
    · exact name_iterHostIps hb
  obtain ⟨host', hmem, hpass⟩ :=
    exists_mem_of_mapM_eq_ok hhosts (List.mem_filterMap.2 ⟨e, he, hhost⟩)
  have hnd : (hosts.map Host.name).Nodup := by
    rw [map_of_mapM_eq_ok hname hhosts]
    exact h.names
  exact ⟨host', hpass, hname host host' hpass ▸ getPath_queryList hnd hmem⟩

end

/-! ## Two collections -/

/-- The metadata of an instance keeps the traffic of the cluster off the floating IPs. -/
def UsesPrivateIp (e : Entry) : Prop :=
  ∃ items, e.resource.getPath ["primary", "attributes"] = .ok (.dict items) ∧
    keepsPrivate (parseDict items "metadata" '.') = true

/-- Both collections give the host this name and the same variables. -/
def SameVariables (F : Format) (resources₁ resources₂ : List Entry) (name : String) : Prop :=
  ∃ o₁ o₂ attrs₁ attrs₂, inventory F resources₁ = .ok o₁ ∧ inventory F resources₂ = .ok o₂ ∧
    o₁.getPath ["_meta", "hostvars", name] = .ok (.dict attrs₁) ∧
    o₂.getPath ["_meta", "hostvars", name] = .ok (.dict attrs₂) ∧
    ∀ key, Assoc.lookup key attrs₁ = Assoc.lookup key attrs₂

section
variable {F : Format} {resources resources₁ resources₂ : List Entry} {e : Entry} {host : Host}

/-- The floating IP of a host's own port. -/
theorem ownIp_congr (h₁ : WellFormed F resources₁) (h₂ : WellFormed F resources₂)
    (hown : ∀ port, Assoc.lookup "port_id" host.attrs = some (.str port) → ∀ ip,
      (port, ip) ∈ resources₁.filterMap associationOf ↔
        (port, ip) ∈ resources₂.filterMap associationOf)
    {port : Value} (hport : Assoc.lookup "port_id" host.attrs = some port) :
    ownIp (resources₁.filterMap associationOf) port =
      ownIp (resources₂.filterMap associationOf) port := by
  cases port with
  | str p =>
    have hmem : ∀ {resources}, WellFormed F resources → ∀ ip,
        Assoc.lookup p (resources.filterMap associationOf) = some ip ↔
          (p, ip) ∈ resources.filterMap associationOf :=
      fun h ip => ⟨Assoc.mem_of_lookup, Assoc.lookup_of_mem h.ports⟩
    refine Option.ext fun ip => ?_
    exact (hmem h₁ ip).trans ((hown p hport ip).trans (hmem h₂ ip).symm)
  | none | bool | int | float | list | dict => rfl

/-- Without floating IPs a port has none. -/
theorem ownIp_of_isEmpty {ips : Flat} (h : ips.isEmpty = true) (port : Value) :
    ownIp ips port = none := by
  rw [List.isEmpty_iff] at h
  subst h
  cases port <;> rfl

/-- The variables of an instance that asks for the private addresses have `access_ip` iff there was
no second pass. -/
theorem accessIp_isSome_iff {items attrs : Flat} {o : Value} (h : WellFormed F resources)
    (he : e ∈ resources) (hhost : hostOf F e = some host)
    (htype : resourceType e.key = .ok "openstack_compute_instance_v2")
    (hitems : e.resource.getPath ["primary", "attributes"] = .ok (.dict items))
    (hprivate : keepsPrivate (parseDict items "metadata" '.') = true)
    (ho : inventory F resources = .ok o)
    (hattrs : o.getPath ["_meta", "hostvars", host.name] = .ok (.dict attrs)) :
    (Assoc.lookup "access_ip" attrs).isSome ↔ (resources.filterMap associationOf).isEmpty := by
  obtain ⟨host', hpass, hpath⟩ := inventory_host h ho he hhost
  obtain ⟨port, -, hmem, hpass'⟩ := secondPass_openstack h he hhost htype hitems _
  cases hattrs.symm.trans hpath
  cases hpass.symm.trans hpass'
  rw [hprivate, Assoc.lookup_isSome]
  cases (resources.filterMap associationOf).isEmpty with
  | true => simpa using hmem
  | false => simp

/-- A device keeps its variables where there is no association. -/
theorem secondPass_device {host' : Host} (h : WellFormed F resources) (he : e ∈ resources)
    (hdevice : resourceType e.key = .ok "metal_device")
    (hnot : ¬ (HasDevice resources ∧ HasAssociation resources))
    (hpass : secondPass (resources.filterMap associationOf) host = .ok host') : host' = host := by
  rw [secondPass,
    if_pos ((associations_isEmpty h).2 fun ha => hnot ⟨⟨e, he, hdevice⟩, ha⟩)] at hpass
  cases hpass
  rfl

/-- An instance with the same floating IP in two collections has the same variables, if it keeps its
private addresses in both or in neither. -/
theorem secondPass_instance {items : Flat} {host₁ host₂ : Host} (h₁ : WellFormed F resources₁)
    (h₂ : WellFormed F resources₂) (he₁ : e ∈ resources₁) (he₂ : e ∈ resources₂)
    (hhost : hostOf F e = some host)
    (htype : resourceType e.key = .ok "openstack_compute_instance_v2")
    (hitems : e.resource.getPath ["primary", "attributes"] = .ok (.dict items))
    (hip : ∀ port, Assoc.lookup "port_id" host.attrs = some port →
      ownIp (resources₁.filterMap associationOf) port =
        ownIp (resources₂.filterMap associationOf) port)
    (hkeep : (resources₁.filterMap associationOf).isEmpty ≠
        (resources₂.filterMap associationOf).isEmpty →
      keepsPrivate (parseDict items "metadata" '.') = false)
    (hpass₁ : secondPass (resources₁.filterMap associationOf) host = .ok host₁)
    (hpass₂ : secondPass (resources₂.filterMap associationOf) host = .ok host₂) :
    host₁.attrs = host₂.attrs := by
  obtain ⟨port, hport, -, hsecond₁⟩ := secondPass_openstack h₁ he₁ hhost htype hitems
    (resources₁.filterMap associationOf)
  obtain ⟨port', hport', -, hsecond₂⟩ := secondPass_openstack h₂ he₂ hhost htype hitems
    (resources₂.filterMap associationOf)
  cases hport.symm.trans hport'
  have hip := hip port hport
  cases hpass₁.symm.trans hsecond₁
  cases hpass₂.symm.trans hsecond₂
  dsimp only
  rw [hip]
  -- with one pass only, there is no floating IP and `access_ip` is kept
  cases hips₁ : (resources₁.filterMap associationOf).isEmpty with
  | true =>
    cases hips₂ : (resources₂.filterMap associationOf).isEmpty with
    | true => rfl
    | false =>
      rw [hkeep (by rw [hips₁, hips₂]; decide), ← hip, ownIp_of_isEmpty hips₁]
      rfl
  | false =>
    cases hips₂ : (resources₂.filterMap associationOf).isEmpty with
    | true =>
      rw [hkeep (by rw [hips₁, hips₂]; decide), ownIp_of_isEmpty hips₂]
      rfl
    | false => rfl

/-- An instance with this value of `use_access_ip`. -/
def exampleVm (useAccessIp : String) : Entry :=
  ⟨.str "m", "openstack_compute_instance_v2.vm", exampleResource [("name", .str "vm"),
    ("id", .str "i1"), ("access_ip_v4", .str "10.0.0.1"), ("access_ip_v6", .str ""),
    ("key_pair", .str "k"), ("image_id", .str "im"), ("flavor_name", .str "small"),
    ("network.0.fixed_ip_v4", .str "10.0.0.1"), ("network.0.port", .str "p1"),
    ("metadata.use_access_ip", .str useAccessIp)]⟩

/-- A device. -/
def exampleDevice : Entry :=
  ⟨.str "m", "metal_device.d", exampleResource [("hostname", .str "d"), ("id", .str "i2"),
    ("operating_system", .str "ubuntu_20_04"), ("locked", .str "false"), ("plan", .str "c3"),
    ("project_id", .str "p"), ("state", .str "active"), ("network.0.address", .str "1.2.3.4"),
    ("network.1.address", .str "fe80::1"), ("network.2.address", .str "10.0.0.2")]⟩

/-- An association with a port of neither. -/
def exampleAssociation : Entry :=
  ⟨.str "m", "openstack_networking_floatingip_associate_v2.a",
    exampleResource [("port_id", .str "p2"), ("floating_ip", .str "1.2.3.5")]⟩

/-- A resource that is parsed is well-formed, with the association or without it. -/
theorem wellFormed_example {parser : Format → Value → Except Exc Host}
    (hparser : parserOf e = some parser) (hhost : parser F e.resource = .ok host)
    (hport : ∀ port, Assoc.lookup "port_id" host.attrs = some port → IsScalar port)
    (hrest : resources.Sublist [exampleAssociation]) : WellFormed F (e :: resources) := by
  have hhostOf : hostOf F e = some host := by
    rw [hostOf, hparser, Option.bind_some, hhost]
    rfl
  have hmem : ∀ e' ∈ e :: resources, e' = e ∨ e' = exampleAssociation := by
    intro e' he'
    refine (List.mem_cons.1 he').imp_right fun h => ?_
    exact List.mem_singleton.1 (hrest.subset h)
  constructor
  case typed =>
    intro e' he'
    rcases hmem e' he' with rfl | rfl
    · rw [parserOf] at hparser
      cases htype : resourceType e'.key with
      | ok type => exact ⟨type, rfl⟩
      | error _ =>
        rw [htype] at hparser
        cases hparser
    · exact ⟨_, rfl⟩
  case parsed =>
    intro e' he' parser' hparser'
    rcases hmem e' he' with rfl | rfl
    · cases hparser.symm.trans hparser'
      exact ⟨host, hhost⟩
    · cases hparser'
  case port =>
    intro e' he' host' hhost'
    rcases hmem e' he' with rfl | rfl
    · cases hhostOf.symm.trans hhost'
      exact hport
    · cases hhost'
  case associated =>
    intro e' he' htype
    rcases hmem e' he' with rfl | rfl
    · rw [parserOf, htype] at hparser
      cases hparser
    · exact ⟨_, rfl⟩
  case names =>
    have hnone : resources.filterMap (hostOf F) = [] := by
      refine List.filterMap_eq_nil_iff.2 fun e' he' => ?_
      rw [List.mem_singleton.1 (hrest.subset he')]
      rfl
    rw [List.filterMap_cons, hhostOf, hnone]
    exact List.nodup_singleton _
  case ports =>
    have hnone : associationOf e = none := by
      refine if_neg fun htype => ?_
      rw [parserOf, htype] at hparser
      cases hparser
    rw [List.filterMap_cons, hnone]
    exact ((hrest.filterMap associationOf).map Prod.fst).nodup (List.nodup_singleton _)

/-- The program ends on a device as soon as there is an association, and an instance that asks for
the private addresses keeps `access_ip` only as long as there is none. -/
theorem sameVariables_fails :
    WellFormed exampleFormat [exampleDevice] ∧
      WellFormed exampleFormat [exampleDevice, exampleAssociation] ∧
      (∃ o, inventory exampleFormat [exampleDevice] = .ok o) ∧
      inventory exampleFormat [exampleDevice, exampleAssociation] = .error (.keyError "port_id") ∧
      WellFormed exampleFormat [exampleVm "0"] ∧
      WellFormed exampleFormat [exampleVm "0", exampleAssociation] ∧
      ¬ SameVariables exampleFormat [exampleVm "0"] [exampleVm "0", exampleAssociation] "vm" := by
  have hdevice : ∀ rest : List Entry, rest.Sublist [exampleAssociation] →
      WellFormed exampleFormat (exampleDevice :: rest) :=
    fun rest hrest =>
      wellFormed_example (show parserOf exampleDevice = some metalDevice from rfl) rfl
      (fun _ h => nomatch h) hrest
  have hvm : ∀ rest : List Entry, rest.Sublist [exampleAssociation] →
      WellFormed exampleFormat (exampleVm "0" :: rest) :=
    fun rest hrest =>
      wellFormed_example (show parserOf (exampleVm "0") = some openstackHost from rfl) rfl
      (fun _ h => by cases h; trivial) hrest
  refine ⟨hdevice _ (List.nil_sublist _), hdevice _ (List.Sublist.refl _), ⟨_, rfl⟩, rfl,
    hvm _ (List.nil_sublist _), hvm _ (List.Sublist.refl _), ?_⟩
  rintro ⟨o₁, o₂, attrs₁, attrs₂, ho₁, ho₂, hattrs₁, hattrs₂, hsame⟩
  cases ho₁
  cases ho₂
  cases hattrs₁
  cases hattrs₂
  exact absurd (hsame "access_ip") nofun

/-- A host has the same variables in two collections iff neither mixes devices and associations
and, if its metadata asks for the private addresses, both or neither have an association. -/
theorem sameVariables_iff (h₁ : WellFormed F resources₁) (h₂ : WellFormed F resources₂)
    (he₁ : e ∈ resources₁) (he₂ : e ∈ resources₂) (hhost : hostOf F e = some host)
    (hown : ∀ port, Assoc.lookup "port_id" host.attrs = some (.str port) → ∀ ip,
      (port, ip) ∈ resources₁.filterMap associationOf ↔
        (port, ip) ∈ resources₂.filterMap associationOf) :
    SameVariables F resources₁ resources₂ host.name ↔
      ¬ (HasDevice resources₁ ∧ HasAssociation resources₁) ∧
      ¬ (HasDevice resources₂ ∧ HasAssociation resources₂) ∧
      (UsesPrivateIp e → (HasAssociation resources₁ ↔ HasAssociation resources₂)) := by
  have hempty₁ := associations_isEmpty h₁
  have hempty₂ := associations_isEmpty h₂
  constructor
  · rintro ⟨o₁, o₂, attrs₁, attrs₂, ho₁, ho₂, hattrs₁, hattrs₂, hsame⟩
    have hnot₁ := (inventory_isOk_iff h₁).1 ⟨o₁, ho₁⟩
    have hnot₂ := (inventory_isOk_iff h₂).1 ⟨o₂, ho₂⟩
    refine ⟨hnot₁, hnot₂, fun ⟨items, hitems, hprivate⟩ => ?_⟩
    rcases hostOf_eq_some hhost with ⟨hdevice, -⟩ | ⟨htype, -⟩
    · have hnone₁ : ¬ HasAssociation resources₁ := fun h => hnot₁ ⟨⟨e, he₁, hdevice⟩, h⟩
      have hnone₂ : ¬ HasAssociation resources₂ := fun h => hnot₂ ⟨⟨e, he₂, hdevice⟩, h⟩
      exact iff_of_false hnone₁ hnone₂
    rw [← not_iff_not, ← hempty₁, ← hempty₂,
      ← accessIp_isSome_iff h₁ he₁ hhost htype hitems hprivate ho₁ hattrs₁,
      ← accessIp_isSome_iff h₂ he₂ hhost htype hitems hprivate ho₂ hattrs₂, hsame]
  · rintro ⟨hnot₁, hnot₂, hprivate⟩
    obtain ⟨o₁, ho₁⟩ := (inventory_isOk_iff h₁).2 hnot₁
    obtain ⟨o₂, ho₂⟩ := (inventory_isOk_iff h₂).2 hnot₂
    obtain ⟨host₁, hpass₁, hpath₁⟩ := inventory_host h₁ ho₁ he₁ hhost
    obtain ⟨host₂, hpass₂, hpath₂⟩ := inventory_host h₂ ho₂ he₂ hhost
    have hattrs : host₁.attrs = host₂.attrs := by
      rcases hostOf_eq_some hhost with ⟨hdevice, -⟩ | ⟨htype, hparse⟩
      · rw [secondPass_device h₁ he₁ hdevice hnot₁ hpass₁,
          secondPass_device h₂ he₂ hdevice hnot₂ hpass₂]
      · obtain ⟨items, -, -, -, hitems, -⟩ := openstackHost_spec hparse
        refine secondPass_instance h₁ h₂ he₁ he₂ hhost htype hitems
          (fun _ hport => ownIp_congr h₁ h₂ hown hport) (fun hne => ?_) hpass₁ hpass₂
        by_contra hkeeps
        have hassociation := hprivate ⟨items, hitems, by simpa using hkeeps⟩
        exact hne (Bool.eq_iff_iff.2 (hempty₁.trans ((not_congr hassociation).trans hempty₂.symm)))
    exact ⟨o₁, o₂, _, _, ho₁, ho₂, hpath₁, hpath₂, fun key => by rw [hattrs]⟩

theorem sameVariables_example :
    SameVariables exampleFormat [exampleVm "1"] [exampleVm "1", exampleAssociation] "vm" := by
  have hwf : ∀ rest : List Entry, rest.Sublist [exampleAssociation] →
      WellFormed exampleFormat (exampleVm "1" :: rest) :=
    fun rest hrest =>
      wellFormed_example (show parserOf (exampleVm "1") = some openstackHost from rfl) rfl
      (fun _ h => by cases h; trivial) hrest
  obtain ⟨host, hhost, hname, hport⟩ : ∃ host, hostOf exampleFormat (exampleVm "1") = some host ∧
      host.name = "vm" ∧ Assoc.lookup "port_id" host.attrs = some (.str "p1") :=
    ⟨_, rfl, rfl, rfl⟩
  have hdevice :
      ∀ e ∈ [exampleVm "1", exampleAssociation], resourceType e.key ≠ .ok "metal_device" := by
    intro e he
    rcases List.mem_pair.1 he with rfl | rfl
    · decide
    · decide
  rw [← hname]
  refine (sameVariables_iff (hwf _ (List.nil_sublist _)) (hwf _ (List.Sublist.refl _)) (.head _)
    (.head _) hhost ?_).2 ⟨?_, ?_, ?_⟩
  · intro port hport' ip
    cases hport.symm.trans hport'
    have hnone : [exampleVm "1"].filterMap associationOf = [] := rfl
    have hsome : [exampleVm "1", exampleAssociation].filterMap associationOf =
      [("p2", .str "1.2.3.5")] := rfl
    rw [hnone, hsome]
    simp
  · rintro ⟨⟨e, he, htype⟩, -⟩
    exact hdevice e (List.mem_cons.2 (.inl (List.mem_singleton.1 he))) htype
  · rintro ⟨⟨e, he, htype⟩, -⟩
    exact hdevice e he htype
  · rintro ⟨items, hitems, hkeeps⟩
    cases hitems
    exact absurd hkeeps (by decide)

end

end Terraform
