import Kubespray.Lib.PyValue
import Kubespray.Lib.PyStr

/-!
# Terraform states of version 4

`convert_to_v3_structure` of `contrib/terraform/terraform.py`: the nested attributes of an instance
become a flat object with dotted keys, the elements of a list under their index and each list and
object with an entry for its length. The elements themselves are taken for strings or objects, so
a list of anything else ends the program; `convert_isOk_iff` says which attributes are converted.
-/

open Py

namespace Terraform

/-- The assignments `result[k] = v` of a `dict.update`. -/
abbrev Flat := List (String × Value)

mutual

/-- `convert_to_v3_structure(attributes, prefix)`, after `n` calls of `random.randint`; `draw n` is
what the next one returns. The result comes with the number of calls made so far. -/
def convertToV3Structure (draw : Nat → Nat) : Value → String → Nat → Except Exc (Flat × Nat)
  | .str s, pre, n => .ok ([(pre ++ toString (draw n), .str s)], n + 1)
  | .dict kvs, pre, n => convertItems draw kvs pre [] n
  | _, _, _ => .error .attributeError

/-- The loop over `attributes.items()`. -/
def convertItems (draw : Nat → Nat) :
    List (String × Value) → String → Flat → Nat → Except Exc (Flat × Nat)
  | [], _, result, n => .ok (result, n)
  | (key, .list xs) :: kvs, pre, result, n => do
    let counted := if xs.isEmpty then result
      else Assoc.insert (pre ++ key ++ ".#") (.int xs.length) result
    let (result, n) ← convertElements draw xs (pre ++ key) 0 counted n
    convertItems draw kvs pre result n
  | (key, .dict d) :: kvs, pre, result, n =>
    let counted := Assoc.insert (pre ++ key ++ ".%") (.int d.length) result
    let entries := d.map fun p => (pre ++ key ++ "." ++ p.1, p.2)
    convertItems draw kvs pre (Assoc.insertAll counted entries) n
  | (key, value) :: kvs, pre, result, n =>
    convertItems draw kvs pre (Assoc.insert (pre ++ key) value result) n

/-- The loop over the elements of a list, from the index `i` on. -/
def convertElements (draw : Nat → Nat) :
    List Value → String → Nat → Flat → Nat → Except Exc (Flat × Nat)
  | [], _, _, result, n => .ok (result, n)
  | v :: vs, pre, i, result, n => do
    let (part, n) ← convertToV3Structure draw v (pre ++ "." ++ toString i ++ ".") n
    convertElements draw vs pre (i + 1) (Assoc.insertAll result part) n

end

/-- The values that the conversion takes: strings, and objects of whose lists it takes every
element. -/
inductive Convertible : Value → Prop
  | str (s : String) : Convertible (.str s)
  | dict {kvs : List (String × Value)} :
      (∀ key xs, (key, .list xs) ∈ kvs → ∀ x ∈ xs, Convertible x) → Convertible (.dict kvs)

/-- A value that is neither a list nor an object. -/
def IsScalar : Value → Prop
  | .list _ | .dict _ => False
  | _ => True

section
variable {draw : Nat → Nat} {kvs : List (String × Value)} {xs : List Value} {pre key : String}
  {result : Flat} {n : Nat}

/-- A scalar attribute is assigned as it is. -/
theorem convertItems_scalar {value : Value} (h : IsScalar value) :
    convertItems draw ((key, value) :: kvs) pre result n =
      convertItems draw kvs pre (Assoc.insert (pre ++ key) value result) n := by
  cases value <;> first | rfl | cases h

/-- A list attribute takes the entry for its length and its elements. -/
theorem convertItems_list :
    convertItems draw ((key, .list xs) :: kvs) pre result n =
      (convertElements draw xs (pre ++ key) 0
          (if xs.isEmpty then result
            else Assoc.insert (pre ++ key ++ ".#") (.int xs.length) result) n >>= fun r =>
        convertItems draw kvs pre r.1 r.2) := by
  rw [convertItems]

theorem convertElements_cons {v : Value} {i : Nat} :
    convertElements draw (v :: xs) pre i result n =
      (convertToV3Structure draw v (pre ++ "." ++ toString i ++ ".") n >>= fun r =>
        convertElements draw xs pre (i + 1) (Assoc.insertAll result r.1) r.2) := by
  rw [convertElements]

end

/-- The lists among attributes, with one attribute more. -/
theorem forall_list_cons_iff {P : Value → Prop} {key : String} {value : Value}
    {kvs : List (String × Value)} :
    (∀ k xs, (k, Value.list xs) ∈ (key, value) :: kvs → ∀ x ∈ xs, P x) ↔
      (∀ xs, value = .list xs → ∀ x ∈ xs, P x) ∧
        ∀ k xs, (k, Value.list xs) ∈ kvs → ∀ x ∈ xs, P x := by
  constructor
  · intro h
    refine ⟨fun xs he => h key xs (he ▸ .head _), fun k xs hm => h k xs (.tail _ hm)⟩
  · rintro ⟨hhead, htail⟩ k xs hm
    rcases List.mem_cons.1 hm with he | hm
    · cases he
      exact hhead xs rfl
    · exact htail k xs hm

mutual

/-- Whether a value is converted depends neither on the prefix nor on the random numbers. -/
theorem convertToV3Structure_isOk_iff (draw : Nat → Nat) : ∀ (v : Value) (pre : String) (n : Nat),
    (∃ r, convertToV3Structure draw v pre n = .ok r) ↔ Convertible v
  | .str s, pre, n => ⟨fun _ => .str s, fun _ => ⟨_, rfl⟩⟩
  | .dict kvs, pre, n => by
    rw [convertToV3Structure, convertItems_isOk_iff draw kvs pre [] n]
    exact ⟨.dict, fun | .dict h => h⟩
  | .none, _, _ | .bool _, _, _ | .int _, _, _ | .float _, _, _ | .list _, _, _ =>
    ⟨nofun, nofun⟩

theorem convertItems_isOk_iff (draw : Nat → Nat) : ∀ (kvs : List (String × Value)) (pre : String)
    (result : Flat) (n : Nat), (∃ r, convertItems draw kvs pre result n = .ok r) ↔
      ∀ key xs, (key, .list xs) ∈ kvs → ∀ x ∈ xs, Convertible x
  | [], _, _, _ => ⟨fun _ => nofun, fun _ => ⟨_, rfl⟩⟩
  | (key, .list xs) :: kvs, pre, result, n => by
    have hxs := fun pre result => convertElements_isOk_iff draw xs pre 0 result n
    have hkvs := convertItems_isOk_iff draw kvs pre
    simp only [convertItems_list, bind_eq_ok, forall_list_cons_iff, Value.list.injEq]
    constructor
    · rintro ⟨r, r₁, h₁, h₂⟩
      exact ⟨fun ys he => he ▸ (hxs _ _).1 ⟨r₁, h₁⟩, (hkvs _ _).1 ⟨r, h₂⟩⟩
    · rintro ⟨hhead, htail⟩
      obtain ⟨r₁, h₁⟩ := (hxs (pre ++ key) _).2 (hhead xs rfl)
      obtain ⟨r, h₂⟩ := (hkvs r₁.1 r₁.2).2 htail
      exact ⟨r, r₁, h₁, h₂⟩
  | (key, .dict d) :: kvs, pre, result, n => by
    rw [convertItems, convertItems_isOk_iff draw kvs, forall_list_cons_iff]
    simp
  | (_, .none) :: kvs, _, _, _ | (_, .bool _) :: kvs, _, _, _ | (_, .int _) :: kvs, _, _, _
  | (_, .float _) :: kvs, _, _, _ | (_, .str _) :: kvs, _, _, _ => by
    rw [convertItems_scalar, convertItems_isOk_iff draw kvs, forall_list_cons_iff]
    · simp
    · trivial

theorem convertElements_isOk_iff (draw : Nat → Nat) : ∀ (xs : List Value) (pre : String) (i : Nat)
    (result : Flat) (n : Nat), (∃ r, convertElements draw xs pre i result n = .ok r) ↔
      ∀ x ∈ xs, Convertible x
  | [], _, _, _, _ => ⟨fun _ => nofun, fun _ => ⟨_, rfl⟩⟩
  | v :: vs, pre, i, result, n => by
    have hv := fun pre => convertToV3Structure_isOk_iff draw v pre n
    have hvs := convertElements_isOk_iff draw vs pre (i + 1)
    simp only [convertElements_cons, bind_eq_ok, List.forall_mem_cons]
    constructor
    · rintro ⟨r, r₁, h₁, h₂⟩
      exact ⟨(hv _).1 ⟨r₁, h₁⟩, (hvs _ _).1 ⟨r, h₂⟩⟩
    · rintro ⟨hhead, htail⟩
      obtain ⟨r₁, h₁⟩ := (hv (pre ++ "." ++ toString i ++ ".")).2 hhead
      obtain ⟨r, h₂⟩ := (hvs (Assoc.insertAll result r₁.1) r₁.2).2 htail
      exact ⟨r, r₁, h₁, h₂⟩

end

end Terraform
