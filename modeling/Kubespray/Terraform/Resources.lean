import Kubespray.Terraform.Convert
import Mathlib.Data.List.Forall2

/-!
# The resources of state files

`iterresources` of `contrib/terraform/terraform.py`: the resources of states of version 3, and those
of version 4, of which every instance is converted, whatever its type. `iterresources_iff` says when
states of version 4 are read to the end, with one entry for each instance;
`iterresources_fails` is a resource with a list of port numbers.
-/

open Py

namespace Terraform

/-- What `iterresources` yields: `name, key, resource`. -/
structure Entry where
  /-- The module of the resource, or its provider. -/
  name : Value
  /-- Type and name, and the index of the instance. -/
  key : String
  /-- The resource as version 3 has it. -/
  resource : Value

/-- The entries that a loop yields, with the number of random numbers drawn so far. -/
def collect {α : Type} (f : α → Nat → Except Exc (List Entry × Nat)) :
    List α → Nat → Except Exc (List Entry × Nat)
  | [], n => .ok ([], n)
  | a :: as, n => do
    let (es, n) ← f a n
    let (rest, n) ← collect f as n
    return (es ++ rest, n)

section
variable (F : Format) (draw : Nat → Nat)

/-- The key of an instance. -/
def instanceKey (type name inst : Value) : Except Exc String := do
  let key := F.str type ++ "." ++ F.str name
  match ← inst.getIfIn "index_key" with
  | some index => return key ++ "." ++ F.str index
  | none => return key

/-- The entry for an instance of version 4. -/
def iterInstance (resource : Value) (name : String) (inst : Value) (n : Nat) :
    Except Exc (List Entry × Nat) := do
  let type ← resource.getItem "type"
  let key ← instanceKey F type (← resource.getItem "name") inst
  let provider ← resource.getItem "provider"
  let dependsOn ← inst.get "depends_on" (.list [])
  let attributes ← inst.getItem "attributes"
  let (flat, n) ← convertToV3Structure draw attributes "" n
  let id := ((← attributes.getIfIn "id").map ("id", ·)).toList
  let metadata ← attributes.get "meta" (.dict [])
  let primary := ("attributes", .dict flat) :: id ++ [("meta", metadata)]
  return ([⟨.str name, key, .dict [("type", type), ("provider", provider),
    ("depends_on", dependsOn), ("primary", .dict primary)]⟩], n)

/-- The entries of a resource of version 4. -/
def iterResource (resource : Value) (n : Nat) : Except Exc (List Entry × Nat) := do
  let provider ← match ← resource.getItem "provider" with
    | .str s => pure s
    | _ => throw .attributeError
  let name := (split '.' provider).getLast?.getD ""
  let instances ← (← resource.getItem "instances").iterValues
  collect (iterInstance F draw resource name) instances n

/-- The entries of a module of version 3. -/
def iterModule (module : Value) (n : Nat) : Except Exc (List Entry × Nat) := do
  let name ← (← module.getItem "path").last
  let resources ← (← module.getItem "resources").items
  return (resources.map fun p => ⟨name, p.1, p.2⟩, n)

/-- The entries of a state. -/
def iterState (state : Value) (n : Nat) : Except Exc (List Entry × Nat) := do
  let version ← state.getItem "version"
  match version with
  | .int 3 | .float "3.0" => collect iterModule (← (← state.getItem "modules").iterValues) n
  | .int 4 | .float "4.0" =>
    collect (iterResource F draw) (← (← state.getItem "resources").iterValues) n
  | _ => throw (.keyError ("tfstate version " ++ (← F.decimal version) ++ " not supported"))

/-- `iterresources`, for the contents of the files. -/
def iterresources (states : List Value) (n : Nat) : Except Exc (List Entry × Nat) :=
  collect (iterState F draw) states n

end

/-! ## States of version 4 -/

/-- An instance has an object of attributes. -/
def V4Instance (inst : Value) : Prop :=
  ∃ kvs attributes, inst = .dict kvs ∧ Assoc.lookup "attributes" kvs = some (.dict attributes)

/-- A resource has a type, a name, a provider and a list of instances. -/
def V4Resource (resource : Value) : Prop :=
  ∃ kvs type name provider instances, resource = .dict kvs ∧
    Assoc.lookup "type" kvs = some (.str type) ∧ Assoc.lookup "name" kvs = some (.str name) ∧
    Assoc.lookup "provider" kvs = some (.str provider) ∧
    Assoc.lookup "instances" kvs = some (.list instances) ∧ ∀ inst ∈ instances, V4Instance inst

/-- A state of version 4. -/
def V4State (state : Value) : Prop :=
  ∃ kvs resources, state = .dict kvs ∧ Assoc.lookup "version" kvs = some (.int 4) ∧
    Assoc.lookup "resources" kvs = some (.list resources) ∧ ∀ r ∈ resources, V4Resource r

/-- The list under a key; none if there is no list. -/
def listAt (v : Value) (key : String) : List Value :=
  match v.getItem key with
  | .ok (.list xs) => xs
  | _ => []

/-- The instances of a state in the order of the file, each with its resource. -/
def instancesOf (state : Value) : List (Value × Value) :=
  (listAt state "resources").flatMap fun r => (listAt r "instances").map fun inst => (r, inst)

/-- The entry for an instance: it has the instance's key, the type of its resource and its
attributes in flat form. -/
def EntryOf (F : Format) (draw : Nat → Nat) (p : Value × Value) (e : Entry) : Prop :=
  ∃ type name attributes flat n n', p.1.getItem "type" = .ok type ∧ p.1.getItem "name" = .ok name ∧
    instanceKey F type name p.2 = .ok e.key ∧ e.resource.getItem "type" = .ok type ∧
    p.2.getItem "attributes" = .ok attributes ∧
    convertToV3Structure draw attributes "" n = .ok (flat, n') ∧
    e.resource.getPath ["primary", "attributes"] = .ok (.dict flat)

/-! ## Reading a state -/

section
variable {α : Type} {f : α → Nat → Except Exc (List Entry × Nat)} {as : List α}

/-- A loop succeeds iff its body does on each element. -/
theorem collect_isOk_iff {good : α → Prop}
    (h : ∀ a ∈ as, ∀ n, (∃ r, f a n = .ok r) ↔ good a) (n : Nat) :
    (∃ r, collect f as n = .ok r) ↔ ∀ a ∈ as, good a := by
  induction as generalizing n with
  | nil => exact ⟨fun _ => nofun, fun _ => ⟨_, rfl⟩⟩
  | cons a as ih =>
    have ih := ih fun b hb => h b (.tail _ hb)
    simp only [collect, bind_eq_ok, List.forall_mem_cons]
    constructor
    · rintro ⟨r, r₁, h₁, r₂, h₂, -⟩
      exact ⟨(h a (.head _) n).1 ⟨r₁, h₁⟩, (ih _).1 ⟨r₂, h₂⟩⟩
    · rintro ⟨ha, has⟩
      obtain ⟨r₁, h₁⟩ := (h a (.head _) n).2 ha
      obtain ⟨r₂, h₂⟩ := (ih r₁.2).2 has
      exact ⟨_, r₁, h₁, r₂, h₂, rfl⟩

/-- What a loop yields matches what its elements stand for, if it does so element by element. -/
theorem collect_forall₂ {β : Type} {R : β → Entry → Prop} {g : α → List β}
    (h : ∀ a ∈ as, ∀ n r, f a n = .ok r → List.Forall₂ R (g a) r.1) {n : Nat}
    {r : List Entry × Nat} (hr : collect f as n = .ok r) : List.Forall₂ R (as.flatMap g) r.1 := by
  induction as generalizing n r with
  | nil =>
    cases hr
    exact .nil
  | cons a as ih =>
    simp only [collect, bind_eq_ok] at hr
    obtain ⟨r₁, h₁, r₂, h₂, hr⟩ := hr
    cases hr
    rw [List.flatMap_cons]
    exact List.rel_append (h a (.head _) _ _ h₁) (ih (fun b hb => h b (.tail _ hb)) h₂)

end

section
variable {F : Format} {draw : Nat → Nat} {resource inst state : Value}

theorem getItem_of_lookup {kvs : List (String × Value)} {k : String} {v : Value}
    (h : Assoc.lookup k kvs = some v) : Value.getItem (.dict kvs) k = .ok v := by
  rw [Value.getItem_dict, h]

variable (F draw) in
/-- The entry for an instance rests on the conversion of its attributes. -/
theorem iterInstance_eq (hres : V4Resource resource) (hinst : V4Instance inst) (pname : String) :
    ∃ type name attributes key, resource.getItem "type" = .ok type ∧
      resource.getItem "name" = .ok name ∧ inst.getItem "attributes" = .ok attributes ∧
      instanceKey F type name inst = .ok key ∧
      ∃ provider dependsOn rest, ∀ n, iterInstance F draw resource pname inst n =
        (convertToV3Structure draw attributes "" n >>= fun r =>
          .ok ([⟨.str pname, key, .dict [("type", type), ("provider", provider),
            ("depends_on", dependsOn), ("primary", .dict (("attributes", .dict r.1) :: rest))]⟩],
            r.2)) := by
  obtain ⟨kvs, type, name, provider, instances, rfl, htype, hname, hprovider, -, -⟩ := hres
  obtain ⟨ikvs, attributes, rfl, hattributes⟩ := hinst
  have hkey : ∃ key, instanceKey F (.str type) (.str name) (.dict ikvs) = .ok key := by
    rw [instanceKey, Value.getIfIn_dict, ok_bind]
    cases Assoc.lookup "index_key" ikvs <;> exact ⟨_, rfl⟩
  obtain ⟨key, hkey⟩ := hkey
  refine ⟨.str type, .str name, .dict attributes, key, getItem_of_lookup htype,
    getItem_of_lookup hname, getItem_of_lookup hattributes, hkey, ?_⟩
  refine ⟨.str provider, (Assoc.lookup "depends_on" ikvs).getD (.list []),
    ((Assoc.lookup "id" attributes).map ("id", ·)).toList ++
      [("meta", (Assoc.lookup "meta" attributes).getD (.dict []))], fun n => ?_⟩
  simp only [iterInstance, getItem_of_lookup htype, getItem_of_lookup hname, hkey,
    getItem_of_lookup hprovider, getItem_of_lookup hattributes, Value.get, Value.getIfIn_dict,
    ok_bind]
  rfl

/-- An instance is read iff its attributes are converted, and then yields its entry. -/
theorem iterInstance_isOk_iff (hres : V4Resource resource) (hinst : V4Instance inst)
    (pname : String)
    (n : Nat) : (∃ r, iterInstance F draw resource pname inst n = .ok r) ↔
      ∀ attributes, inst.getItem "attributes" = .ok attributes → Convertible attributes := by
  obtain ⟨_, _, attributes, _, -, -, hattributes, -, _, _, _, heq⟩ :=
    iterInstance_eq F draw hres hinst pname
  rw [heq, hattributes]
  simp only [bind_eq_ok, Except.ok.injEq, forall_eq']
  rw [← convertToV3Structure_isOk_iff draw attributes "" n]
  constructor
  · rintro ⟨_, r, h, -⟩
    exact ⟨r, h⟩
  · rintro ⟨r, h⟩
    exact ⟨_, r, h, rfl⟩

theorem iterInstance_entry (hres : V4Resource resource) (hinst : V4Instance inst) {pname : String}
    {n : Nat} {r : List Entry × Nat} (h : iterInstance F draw resource pname inst n = .ok r) :
    List.Forall₂ (EntryOf F draw) [(resource, inst)] r.1 := by
  obtain ⟨type, name, attributes, key, htype, hname, hattributes, hkey, _, _, _, heq⟩ :=
    iterInstance_eq F draw hres hinst pname
  rw [heq, bind_eq_ok] at h
  obtain ⟨r₁, h₁, h⟩ := h
  cases h
  refine .cons ⟨type, name, attributes, r₁.1, n, r₁.2, htype, hname, hkey, rfl, hattributes, h₁,
    rfl⟩ .nil

variable (F draw) in
/-- A resource is read through its instances. -/
theorem iterResource_eq (hres : V4Resource resource) : ∃ pname, ∀ n,
    iterResource F draw resource n =
      collect (iterInstance F draw resource pname) (listAt resource "instances") n := by
  obtain ⟨kvs, type, name, provider, instances, rfl, -, -, hprovider, hinstances, -⟩ := hres
  refine ⟨(split '.' provider).getLast?.getD "", fun n => ?_⟩
  rw [iterResource, getItem_of_lookup hprovider, listAt, getItem_of_lookup hinstances]
  rfl

/-- The listed instances of a resource are its instances. -/
theorem V4Resource.forall_instances (hres : V4Resource resource) :
    ∀ inst ∈ listAt resource "instances", V4Instance inst := by
  obtain ⟨kvs, type, name, provider, instances, rfl, -, -, -, hinstances, h⟩ := hres
  rw [listAt, getItem_of_lookup hinstances]
  exact h

/-- A state is read through its resources. -/
theorem iterState_eq (hstate : V4State state) (n : Nat) :
    iterState F draw state n = collect (iterResource F draw) (listAt state "resources") n := by
  obtain ⟨kvs, resources, rfl, hversion, hresources, -⟩ := hstate
  rw [iterState, getItem_of_lookup hversion, listAt, getItem_of_lookup hresources]
  rfl

theorem V4State.forall_resources (hstate : V4State state) :
    ∀ r ∈ listAt state "resources", V4Resource r := by
  obtain ⟨kvs, resources, rfl, -, hresources, h⟩ := hstate
  rw [listAt, getItem_of_lookup hresources]
  exact h

/-- The instances of a state are converted. -/
def StateConvertible (state : Value) : Prop :=
  ∀ p ∈ instancesOf state, ∀ attributes, p.2.getItem "attributes" = .ok attributes →
    Convertible attributes

theorem iterState_isOk_iff (hstate : V4State state) (n : Nat) :
    (∃ r, iterState F draw state n = .ok r) ↔ StateConvertible state := by
  have hres : ∀ r ∈ listAt state "resources", ∀ n, (∃ es, iterResource F draw r n = .ok es) ↔
      ∀ inst ∈ listAt r "instances", ∀ attributes, inst.getItem "attributes" = .ok attributes →
        Convertible attributes := by
    intro r hr n
    have hr := hstate.forall_resources r hr
    obtain ⟨pname, heq⟩ := iterResource_eq F draw hr
    rw [heq]
    exact collect_isOk_iff
      (fun inst hinst n => iterInstance_isOk_iff hr (hr.forall_instances inst hinst) pname n) n
  rw [iterState_eq hstate, collect_isOk_iff hres]
  simp only [StateConvertible, instancesOf, List.mem_flatMap, List.mem_map]
  constructor
  · rintro h _ ⟨r, hr, inst, hinst, rfl⟩
    exact h r hr inst hinst
  · exact fun h r hr inst hinst => h (r, inst) ⟨r, hr, inst, hinst, rfl⟩

theorem iterState_entries (hstate : V4State state) {n : Nat} {r : List Entry × Nat}
    (h : iterState F draw state n = .ok r) :
    List.Forall₂ (EntryOf F draw) (instancesOf state) r.1 := by
  rw [iterState_eq hstate] at h
  refine collect_forall₂ (fun resource hresource n r hr => ?_) h
  have hres := hstate.forall_resources resource hresource
  obtain ⟨pname, heq⟩ := iterResource_eq F draw hres
  rw [heq] at hr
  rw [List.map_eq_flatMap]
  exact collect_forall₂
    (fun inst hinst n r hr => iterInstance_entry hres (hres.forall_instances inst hinst) hr) hr

end

/-- States of version 4 are read to the end, with one entry for each instance in the order of the
files, iff the attributes of every instance are converted. -/
theorem iterresources_iff (F : Format) (draw : Nat → Nat) (states : List Value) (n : Nat)
    (hstates : ∀ state ∈ states, V4State state) :
    (∃ entries n', iterresources F draw states n = .ok (entries, n') ∧
        List.Forall₂ (EntryOf F draw) (states.flatMap instancesOf) entries) ↔
      ∀ state ∈ states, ∀ p ∈ instancesOf state, ∀ attributes,
        p.2.getItem "attributes" = .ok attributes → Convertible attributes := by
  have hok : (∃ r, iterresources F draw states n = .ok r) ↔
      ∀ state ∈ states, StateConvertible state :=
    collect_isOk_iff (fun state hstate n => iterState_isOk_iff (hstates state hstate) n) n
  refine Iff.trans ⟨?_, ?_⟩ hok
  · rintro ⟨entries, n', h, -⟩
    exact ⟨_, h⟩
  · rintro ⟨r, h⟩
    exact ⟨r.1, r.2, h, collect_forall₂
      (fun state hstate n r hr => iterState_entries (hstates state hstate) hr) h⟩

/-- A state with one instance of these attributes. -/
def exampleState (type : String) (attributes : List (String × Value)) : Value :=
  .dict [("version", .int 4), ("resources", .list [.dict [("type", .str type), ("name", .str "r"),
    ("provider", .str "provider.openstack"),
    ("instances", .list [.dict [("attributes", .dict attributes)]])]])]

theorem exampleState_v4 (type : String) (attributes : List (String × Value)) :
    V4State (exampleState type attributes) := by
  refine ⟨_, _, rfl, rfl, rfl, fun r hr => ?_⟩
  cases List.mem_singleton.1 hr
  refine ⟨_, _, _, _, _, rfl, rfl, rfl, rfl, rfl, fun inst hinst => ?_⟩
  cases List.mem_singleton.1 hinst
  exact ⟨_, _, rfl, rfl⟩

/-- `str` of lists and objects where it does not matter. -/
def exampleFormat : Format := ⟨fun _ => "", fun _ => 0, fun _ => none⟩

/-- A list of numbers ends the program, also in a resource that the inventory does not use. -/
theorem iterresources_fails :
    V4State (exampleState "aws_lb" [("ports", .list [.int 80, .int 443])]) ∧
      iterresources exampleFormat (fun _ => 1)
        [exampleState "aws_lb" [("ports", .list [.int 80, .int 443])]] 0 = .error .attributeError :=
  ⟨exampleState_v4 _ _, rfl⟩

/-- A list of strings and a list of objects are read. -/
theorem iterresources_strings :
    ∃ entries n', iterresources exampleFormat (fun _ => 1)
        [exampleState "aws_lb" [("names", .list [.str "a"]), ("rules", .list [.dict []])]] 0 =
      .ok (entries, n') := by
  have hconv : Convertible
      (.dict [("names", .list [.str "a"]), ("rules", .list [.dict []])]) := by
    refine .dict fun key xs hxs x hx => ?_
    rcases List.mem_pair.1 hxs with he | he
    · cases he
      cases List.mem_singleton.1 hx
      exact .str "a"
    · cases he
      cases List.mem_singleton.1 hx
      refine .dict fun _ _ hnone => ?_
      cases hnone
  have hread := (iterresources_iff exampleFormat (fun _ => 1)
    [exampleState "aws_lb" [("names", .list [.str "a"]), ("rules", .list [.dict []])]] 0
    fun state hstate => List.mem_singleton.1 hstate ▸ exampleState_v4 _ _).2 (by
      intro state hstate p hp attributes hattributes
      cases List.mem_singleton.1 hstate
      cases List.mem_singleton.1 hp
      cases hattributes
      exact hconv)
  obtain ⟨entries, n', h, -⟩ := hread
  exact ⟨entries, n', h⟩

end Terraform
