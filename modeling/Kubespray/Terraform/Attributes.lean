import Kubespray.Terraform.Convert

/-!
# Reading flat attributes

`_parse_prefix`, `parse_attr_list`, `parse_dict` and `parse_list` of
`contrib/terraform/terraform.py` on the attributes that `convert_to_v3_structure` makes. The flat
form of one attribute can be told from those of the others by the text in front of the first dot
(`convertItems_block`), and the elements of a list by their index. `list_attributes_survive` reads
lists back as they were; `parseDict_eq_iff` says when an object is: its count is kept under the key
`%`, which `_parse_prefix` does not take for a marker as it does the `#` of a list. -/

open Py

namespace Terraform

/-! ## The readers -/

/-- `_parse_prefix`. -/
def parsePrefix (source : Flat) (pre : String) (sep : Char) : Flat :=
  source.filterMap fun p =>
    match splitOnce sep p.1 with
    | none => none
    | some (curPre, rest) => if curPre ≠ pre ∨ rest = "#" then none else some (rest, p.2)

/-- `parse_attr_list`. -/
def parseAttrList (source : Flat) (pre : String) (sep : Char) : Except Exc (List Flat) := do
  let attrs ← (parsePrefix source pre sep).foldlM (fun (attrs : List (String × Flat)) p =>
    match splitOnce sep p.1 with
    | none => throw (.valueError "not enough values to unpack (expected 2, got 1)")
    | some (idx, key) =>
      pure (Assoc.insert idx (Assoc.insert key p.2 ((Assoc.lookup idx attrs).getD [])) attrs)) []
  return attrs.map Prod.snd

/-- `parse_dict`. -/
def parseDict (source : Flat) (pre : String) (sep : Char) : Flat :=
  Assoc.insertAll [] (parsePrefix source pre sep)

/-- `parse_list`. -/
def parseList (source : Flat) (pre : String) (sep : Char) : List Value :=
  (parsePrefix source pre sep).map Prod.snd

/-! ## The keys of the flat form -/

/-- The key begins with this text. -/
def Under (pre key : String) : Prop := ∃ rest, key = pre ++ rest

theorem Under.append {pre s key : String} (h : Under (pre ++ s) key) : Under pre key := by
  obtain ⟨rest, rfl⟩ := h
  exact ⟨s ++ rest, String.append_assoc⟩

section
variable {result : Flat} {pre key k : String} {v : Value}

/-- An assigned key is an old one or begins with the prefix. -/
theorem under_insert (hk : k ∈ Assoc.keys (Assoc.insert (pre ++ key) v result)) :
    k ∈ Assoc.keys result ∨ Under pre k := by
  rcases Assoc.mem_keys_insert.1 hk with rfl | hk
  · exact .inr ⟨key, rfl⟩
  · exact .inl hk

/-- What a list attribute starts from: the old entries and the entry for the length. -/
theorem under_counted {xs : List Value}
    (hk : k ∈ Assoc.keys (if xs.isEmpty then result
      else Assoc.insert (pre ++ key ++ ".#") v result)) : k ∈ Assoc.keys result ∨ Under pre k := by
  split at hk
  · exact .inl hk
  · exact (under_insert hk).imp_right .append

theorem nodup_counted {xs : List Value} (hnd : (Assoc.keys result).Nodup) :
    (Assoc.keys (if xs.isEmpty then result
      else Assoc.insert (pre ++ key ++ ".#") v result)).Nodup := by
  split
  · exact hnd
  · exact Assoc.nodup_keys_insert hnd _ _

end

mutual

/-- The flat form has distinct keys, which begin with the prefix. -/
theorem keys_convertToV3Structure (draw : Nat → Nat) : ∀ (v : Value) (pre : String) (n : Nat)
    (r : Flat × Nat), convertToV3Structure draw v pre n = .ok r →
      (Assoc.keys r.1).Nodup ∧ ∀ k ∈ Assoc.keys r.1, Under pre k
  | .str s, pre, n, r, h => by
    cases h
    exact ⟨List.nodup_singleton _, fun k hk => ⟨_, List.mem_singleton.1 hk⟩⟩
  | .dict kvs, pre, n, r, h => by
    rw [convertToV3Structure] at h
    obtain ⟨hnd, hkeys⟩ := keys_convertItems draw kvs pre [] n r h .nil
    exact ⟨hnd, fun k hk => (hkeys k hk).resolve_left List.not_mem_nil⟩
  | .none, _, _, _, h | .bool _, _, _, _, h | .int _, _, _, _, h | .float _, _, _, _, h
  | .list _, _, _, _, h => by cases h

theorem keys_convertItems (draw : Nat → Nat) : ∀ (kvs : List (String × Value)) (pre : String)
    (result : Flat) (n : Nat) (r : Flat × Nat), convertItems draw kvs pre result n = .ok r →
      (Assoc.keys result).Nodup → (Assoc.keys r.1).Nodup ∧
        ∀ k ∈ Assoc.keys r.1, k ∈ Assoc.keys result ∨ Under pre k
  | [], _, _, _, r, h, hnd => by
    cases h
    exact ⟨hnd, fun _ => .inl⟩
  | (key, .list xs) :: kvs, pre, result, n, r, h, hnd => by
    rw [convertItems_list, bind_eq_ok] at h
    obtain ⟨r₁, h₁, h⟩ := h
    obtain ⟨hnd₁, hkeys₁⟩ := keys_convertElements draw xs _ 0 _ n r₁ h₁ (nodup_counted hnd)
    obtain ⟨hnd', hkeys⟩ := keys_convertItems draw kvs pre _ _ _ h hnd₁
    refine ⟨hnd', fun k hk => ?_⟩
    rcases hkeys k hk with hk | hk
    · rcases hkeys₁ k hk with hk | hk
      · exact under_counted hk
      · exact .inr hk.append.append
    · exact .inr hk
  | (key, .dict d) :: kvs, pre, result, n, r, h, hnd => by
    rw [convertItems] at h
    obtain ⟨hnd', hkeys⟩ := keys_convertItems draw kvs pre _ _ _ h
      (Assoc.nodup_keys_insertAll (Assoc.nodup_keys_insert hnd _ _) _)
    refine ⟨hnd', fun k hk => ?_⟩
    rcases hkeys k hk with hk | hk
    · rcases Assoc.mem_keys_insertAll.1 hk with hk | hk
      · exact (under_insert hk).imp_right .append
      · obtain ⟨p, hp, rfl⟩ := List.mem_map.1 hk
        obtain ⟨q, -, rfl⟩ := List.mem_map.1 hp
        exact .inr (Under.append (Under.append ⟨q.1, rfl⟩))
    · exact .inr hk
  | (key, .none) :: kvs, pre, result, _, _, h, hnd
  | (key, .bool _) :: kvs, pre, result, _, _, h, hnd
  | (key, .int _) :: kvs, pre, result, _, _, h, hnd
  | (key, .float _) :: kvs, pre, result, _, _, h, hnd
  | (key, .str _) :: kvs, pre, result, _, _, h, hnd => by
    rw [convertItems_scalar] at h
    · obtain ⟨hnd', hkeys⟩ := keys_convertItems draw kvs _ _ _ _ h (Assoc.nodup_keys_insert hnd _ _)
      exact ⟨hnd', fun k hk => (hkeys k hk).elim under_insert .inr⟩
    · trivial

theorem keys_convertElements (draw : Nat → Nat) : ∀ (xs : List Value) (pre : String) (i : Nat)
    (result : Flat) (n : Nat) (r : Flat × Nat), convertElements draw xs pre i result n = .ok r →
      (Assoc.keys result).Nodup → (Assoc.keys r.1).Nodup ∧
        ∀ k ∈ Assoc.keys r.1, k ∈ Assoc.keys result ∨ Under (pre ++ ".") k
  | [], _, _, _, _, r, h, hnd => by
    cases h
    exact ⟨hnd, fun _ => .inl⟩
  | v :: vs, pre, i, result, n, r, h, hnd => by
    rw [convertElements_cons, bind_eq_ok] at h
    obtain ⟨r₁, h₁, h⟩ := h
    obtain ⟨-, hpart⟩ := keys_convertToV3Structure draw v _ _ _ h₁
    obtain ⟨hnd', hkeys⟩ := keys_convertElements draw vs pre (i + 1) _ _ _ h
      (Assoc.nodup_keys_insertAll hnd _)
    refine ⟨hnd', fun k hk => ?_⟩
    rcases hkeys k hk with hk | hk
    · rcases Assoc.mem_keys_insertAll.1 hk with hk | hk
      · exact .inl hk
      · exact .inr (hpart k hk).append.append
    · exact .inr hk

end

/-! ## The block of an attribute -/

section
variable {draw : Nat → Nat} {kvs : List (String × Value)} {xs : List Value} {pre key : String}
  {result : Flat} {n : Nat} {r : Flat × Nat} {p : String → Bool}

theorem convertItems_append (kvs kvs' : List (String × Value)) :
    convertItems draw (kvs ++ kvs') pre result n =
      (convertItems draw kvs pre result n >>= fun r => convertItems draw kvs' pre r.1 r.2) := by
  induction kvs generalizing result n with
  | nil => rfl
  | cons q kvs ih =>
    obtain ⟨key, value⟩ := q
    cases value with
    | list xs =>
      rw [List.cons_append, convertItems_list, convertItems_list, bind_assoc]
      exact bind_congr fun r => ih
    | dict d => rw [List.cons_append, convertItems, ih, convertItems]
    | none | bool | int | float | str =>
      rw [List.cons_append, convertItems_scalar, convertItems_scalar, ih] <;> trivial

/-- A filter that drops all keys of a list's elements does not see the list. -/
theorem filter_convertElements (hp : ∀ k, Under (pre ++ ".") k → p k = false) {i : Nat}
    (h : convertElements draw xs pre i result n = .ok r) :
    (r.1.filter fun q => p q.1) = result.filter fun q => p q.1 := by
  induction xs generalizing i result n with
  | nil =>
    cases h
    rfl
  | cons v xs ih =>
    rw [convertElements_cons, bind_eq_ok] at h
    obtain ⟨r₁, h₁, h⟩ := h
    have hpart : (r₁.1.filter fun q => p q.1) = [] := by
      refine List.filter_eq_nil_iff.2 fun q hq => ?_
      have hunder := (keys_convertToV3Structure draw v _ _ _ h₁).2 q.1 (Assoc.mem_keys_of_mem hq)
      rw [hp q.1 hunder.append.append]
      exact Bool.false_ne_true
    rw [ih h, Assoc.filter_insertAll, hpart, Assoc.insertAll_nil]

/-- A filter that keeps all keys of a list's elements can be applied before. -/
theorem convertElements_filter (hp : ∀ k, Under (pre ++ ".") k → p k = true) {i : Nat}
    (h : convertElements draw xs pre i result n = .ok r) :
    convertElements draw xs pre i (result.filter fun q => p q.1) n =
      .ok (r.1.filter fun q => p q.1, r.2) := by
  induction xs generalizing i result n with
  | nil =>
    cases h
    rfl
  | cons v xs ih =>
    rw [convertElements_cons, bind_eq_ok] at h
    obtain ⟨r₁, h₁, h⟩ := h
    have hpart : (r₁.1.filter fun q => p q.1) = r₁.1 := by
      refine List.filter_eq_self.2 fun q hq => ?_
      have hunder := (keys_convertToV3Structure draw v _ _ _ h₁).2 q.1 (Assoc.mem_keys_of_mem hq)
      exact hp q.1 hunder.append.append
    rw [convertElements_cons, h₁, ok_bind, ← ih h, Assoc.filter_insertAll, hpart]

/-- The key belongs to the attribute `k`: it is `k`, a dot and more. -/
def ofAttribute (k key : String) : Bool := decide ((splitOnce '.' key).map Prod.fst = some k)

/-- The keys of an attribute belong to it and to no other. -/
theorem ofAttribute_under {j k : String} (hj : '.' ∉ j.toList) (h : Under (j ++ ".") key) :
    ofAttribute k key = decide (j = k) := by
  obtain ⟨rest, rfl⟩ := h
  have hsep : "." = String.singleton '.' := rfl
  rw [ofAttribute, hsep, splitOnce_append hj]
  simp

theorem ofAttribute_self {j k : String} (hj : '.' ∉ j.toList) : ofAttribute k j = false := by
  rw [ofAttribute, splitOnce_of_not_mem hj]
  rfl

/-- The entry for the length belongs to its attribute. -/
theorem filter_counted {j k : String} (hj : '.' ∉ j.toList) {v : Value} :
    ((if xs.isEmpty then result else Assoc.insert ("" ++ j ++ ".#") v result).filter
        fun q => ofAttribute k q.1) =
      if j = k then
        if xs.isEmpty then result.filter fun q => ofAttribute k q.1
        else Assoc.insert ("" ++ j ++ ".#") v (result.filter fun q => ofAttribute k q.1)
      else result.filter fun q => ofAttribute k q.1 := by
  have hunder : Under (j ++ ".") ("" ++ j ++ ".#") := ⟨"#", by simp [String.append_assoc]⟩
  split
  · rw [ite_self]
  · rw [Assoc.filter_insert, ofAttribute_under hj hunder]
    simp

/-- The assignments for an object belong to its attribute. -/
theorem filter_entries {j k : String} (hj : '.' ∉ j.toList) {d : List (String × Value)}
    {v : Value} :
    ((Assoc.insertAll (Assoc.insert ("" ++ j ++ ".%") v result)
        (d.map fun p => ("" ++ j ++ "." ++ p.1, p.2))).filter fun q => ofAttribute k q.1) =
      if j = k then
        Assoc.insertAll
          (Assoc.insert ("" ++ j ++ ".%") v (result.filter fun q => ofAttribute k q.1))
          (d.map fun p => ("" ++ j ++ "." ++ p.1, p.2))
      else result.filter fun q => ofAttribute k q.1 := by
  have hunder : Under (j ++ ".") ("" ++ j ++ ".%") := ⟨"%", by simp [String.append_assoc]⟩
  have hentry : ∀ q ∈ d.map fun p => ("" ++ j ++ "." ++ p.1, p.2),
      ofAttribute k q.1 = decide (j = k) := by
    intro q hq
    obtain ⟨p, -, rfl⟩ := List.mem_map.1 hq
    exact ofAttribute_under hj ⟨p.1, by simp⟩
  rw [Assoc.filter_insertAll, Assoc.filter_insert, ofAttribute_under hj hunder,
    List.filter_congr hentry]
  by_cases hjk : j = k <;> simp [hjk]

/-- Another attribute leaves the entries of `k` as they are. -/
theorem filter_convertItem_other {j k : String} (hj : '.' ∉ j.toList) (hjk : j ≠ k) {value : Value}
    (h : convertItems draw [(j, value)] "" result n = .ok r) :
    (r.1.filter fun q => ofAttribute k q.1) = result.filter fun q => ofAttribute k q.1 := by
  cases value with
  | list xs =>
    rw [convertItems_list, bind_eq_ok] at h
    obtain ⟨r₁, h₁, h⟩ := h
    cases h
    rw [filter_convertElements (fun key hkey => ?_) h₁, filter_counted hj, if_neg hjk]
    rw [String.empty_append] at hkey
    rw [ofAttribute_under hj hkey, decide_eq_false hjk]
  | dict d =>
    cases h
    rw [filter_entries hj, if_neg hjk]
  | none | bool | int | float | str =>
    cases h
    rw [Assoc.filter_insert, String.empty_append, ofAttribute_self hj]
    rfl

/-- The entries of `k` come from `k` alone. -/
theorem convertItem_filter {k : String} (hk : '.' ∉ k.toList) {value : Value}
    (hvalue : ¬ IsScalar value) (h : convertItems draw [(k, value)] "" result n = .ok r) :
    convertItems draw [(k, value)] "" (result.filter fun q => ofAttribute k q.1) n =
      .ok (r.1.filter fun q => ofAttribute k q.1, r.2) := by
  cases value with
  | list xs =>
    rw [convertItems_list, bind_eq_ok] at h
    obtain ⟨r₁, h₁, h⟩ := h
    cases h
    have h₂ := convertElements_filter (p := ofAttribute k) (fun key hkey => ?_) h₁
    · rw [filter_counted hk, if_pos rfl] at h₂
      rw [convertItems_list, h₂]
      rfl
    · rw [String.empty_append] at hkey
      rw [ofAttribute_under hk hkey, decide_eq_true rfl]
  | dict d =>
    cases h
    rw [filter_entries hk, if_pos rfl]
    rfl
  | none | bool | int | float | str => exact absurd trivial hvalue

/-- Other attributes leave the entries of `k` as they are. -/
theorem filter_convertItems_others {k : String} (hdot : ∀ q ∈ kvs, '.' ∉ q.1.toList)
    (hne : k ∉ Assoc.keys kvs) (h : convertItems draw kvs "" result n = .ok r) :
    (r.1.filter fun q => ofAttribute k q.1) = result.filter fun q => ofAttribute k q.1 := by
  induction kvs generalizing result n with
  | nil =>
    cases h
    rfl
  | cons q kvs ih =>
    rw [Assoc.keys_cons, List.mem_cons, not_or] at hne
    rw [← List.singleton_append, convertItems_append, bind_eq_ok] at h
    obtain ⟨r₁, h₁, h⟩ := h
    rw [ih (fun q hq => hdot q (.tail _ hq)) hne.2 h,
      filter_convertItem_other (hdot q (.head _)) (Ne.symm hne.1) h₁]

/-- The entries of an attribute are those that it has without the other attributes. -/
theorem convertItems_block {k : String} {value : Value} (hnd : (Assoc.keys kvs).Nodup)
    (hdot : ∀ q ∈ kvs, '.' ∉ q.1.toList) (hmem : (k, value) ∈ kvs) (hvalue : ¬ IsScalar value)
    (h : convertItems draw kvs "" [] n = .ok r) :
    ∃ n₁ r₁, convertItems draw [(k, value)] "" [] n₁ = .ok r₁ ∧
      (r.1.filter fun q => ofAttribute k q.1) = r₁.1 := by
  obtain ⟨before, after, rfl⟩ := List.append_of_mem hmem
  rw [Assoc.keys_append, Assoc.keys_cons] at hnd
  obtain ⟨-, hafter, hbefore⟩ := List.nodup_append.1 hnd
  have hk : k ∉ Assoc.keys before := fun hk => hbefore k hk k (.head _) rfl
  have hdot' := List.forall_mem_append.1 hdot
  rw [convertItems_append, bind_eq_ok] at h
  obtain ⟨r₁, h₁, h⟩ := h
  rw [← List.singleton_append, convertItems_append, bind_eq_ok] at h
  obtain ⟨r₂, h₂, h⟩ := h
  have hblock := convertItem_filter (hdot (k, value) hmem) hvalue h₂
  rw [filter_convertItems_others hdot'.1 hk h₁] at hblock
  refine ⟨r₁.2, _, hblock, ?_⟩
  exact filter_convertItems_others (fun q hq => hdot'.2 q (.tail _ hq))
    (List.nodup_cons.1 hafter).1 h

/-- What is read of an attribute is read of its entries. -/
theorem parsePrefix_filter (source : Flat) (k : String) :
    parsePrefix source k '.' = parsePrefix (source.filter fun q => ofAttribute k q.1) k '.' := by
  rw [parsePrefix, parsePrefix, List.filterMap_filter]
  refine List.filterMap_congr fun q _ => ?_
  cases hq : splitOnce '.' q.1 with
  | none => simp [ofAttribute, hq]
  | some s =>
    by_cases hs : s.1 = k <;> simp [ofAttribute, hq, hs]

/-! ## Lists -/

/-- The keys of the element with the index `i`. -/
def elementPre (pre : String) (i : Nat) : String := pre ++ "." ++ toString i ++ "."

/-- A key belongs to one element. -/
theorem index_of_under {i j : Nat} (hi : Under (elementPre pre i) key)
    (hj : Under (elementPre pre j) key) : i = j := by
  obtain ⟨rest, rfl⟩ := hi
  obtain ⟨rest', h⟩ := hj
  have hsep : "." = String.singleton '.' := rfl
  simp only [elementPre, String.append_assoc, String.append_right_inj] at h
  rw [hsep, ← String.append_assoc, ← String.append_assoc] at h
  have hsplit := congrArg (splitOnce '.') h
  rw [splitOnce_append (not_mem_toString (by decide) i),
    splitOnce_append (not_mem_toString (by decide) j)] at hsplit
  exact Nat.repr_injective (congrArg Prod.fst (Option.some.inj hsplit))

/-- The flat form of a list: that of its elements, one after another. -/
theorem convertElements_parts {i : Nat} (hnd : (Assoc.keys result).Nodup)
    (hfresh : ∀ k ∈ Assoc.keys result, ∀ j, i ≤ j → ¬ Under (elementPre pre j) k)
    (h : convertElements draw xs pre i result n = .ok r) :
    ∃ parts : List Flat, r.1 = result ++ parts.flatten ∧
      List.Forall₂ (fun (x : Value × Nat) part => ∃ n n',
        convertToV3Structure draw x.1 (elementPre pre x.2) n = .ok (part, n'))
          (xs.zipIdx i) parts := by
  induction xs generalizing i result n with
  | nil =>
    cases h
    exact ⟨[], by simp, .nil⟩
  | cons v xs ih =>
    rw [convertElements_cons, bind_eq_ok] at h
    obtain ⟨r₁, h₁, h⟩ := h
    obtain ⟨hpart, hunder⟩ := keys_convertToV3Structure draw v _ _ _ h₁
    have hnd' : (Assoc.keys (result ++ r₁.1)).Nodup := by
      rw [Assoc.keys_append]
      refine List.nodup_append.2 ⟨hnd, hpart, fun k hk k' hk' he => ?_⟩
      exact hfresh k hk i le_rfl (he ▸ hunder k' hk')
    rw [Assoc.insertAll_append hnd'] at h
    obtain ⟨parts, hr, hparts⟩ := ih hnd' (fun k hk j hj hk' => by
      rw [Assoc.keys_append] at hk
      rcases List.mem_append.1 hk with hk | hk
      · exact hfresh k hk j (by omega) hk'
      · have heq := index_of_under (hunder k hk) hk'
        omega) h
    refine ⟨r₁.1 :: parts, by rw [hr, List.flatten_cons, List.append_assoc], ?_⟩
    exact .cons ⟨n, r₁.2, h₁⟩ hparts

/-- The entry for the length of a list belongs to no element. -/
theorem not_under_count (k : String) (j : Nat) : ¬ Under (elementPre k j) ("" ++ k ++ ".#") := by
  rintro ⟨rest, h⟩
  simp only [elementPre, String.empty_append, String.append_assoc, String.append_right_inj] at h
  have hhash : ".#" = "." ++ "#" := rfl
  rw [hhash, String.append_right_inj] at h
  have hdot : '.' ∈ "#".toList := by
    rw [h]
    simp
  exact absurd hdot (by decide)

/-- What is read of one entry of an attribute. -/
theorem parsePrefix_cons {k rest : String} (hk : '.' ∉ k.toList) (v : Value) (es : Flat) :
    parsePrefix ((k ++ "." ++ rest, v) :: es) k '.' =
      if rest = "#" then parsePrefix es k '.' else (rest, v) :: parsePrefix es k '.' := by
  have hsep : "." = String.singleton '.' := rfl
  rw [parsePrefix, List.filterMap_cons, hsep, splitOnce_append hk]
  by_cases h : rest = "#" <;> simp [h, parsePrefix]

theorem parsePrefix_append (es es' : Flat) (k : String) (sep : Char) :
    parsePrefix (es ++ es') k sep = parsePrefix es k sep ++ parsePrefix es' k sep :=
  List.filterMap_append

/-- What is read of the flat form of a list: the entry for its length is skipped. -/
theorem parsePrefix_list {k : String} (hk : '.' ∉ k.toList)
    (h : convertItems draw [(k, .list xs)] "" [] n = .ok r) :
    ∃ parts : List Flat, parsePrefix r.1 k '.' = parsePrefix parts.flatten k '.' ∧
      List.Forall₂ (fun (x : Value × Nat) part => ∃ n n',
        convertToV3Structure draw x.1 (elementPre k x.2) n = .ok (part, n'))
          (xs.zipIdx 0) parts := by
  rw [convertItems_list, bind_eq_ok] at h
  obtain ⟨r₁, h₁, h⟩ := h
  cases h
  rw [String.empty_append] at h₁
  obtain ⟨parts, hr, hparts⟩ := convertElements_parts (by
    split
    · exact .nil
    · exact List.nodup_singleton _) (fun key hkey j _ => by
    split at hkey
    · cases hkey
    · rw [List.mem_singleton.1 hkey, ← String.empty_append (s := k)]
      exact not_under_count k j) h₁
  refine ⟨parts, ?_, hparts⟩
  have hcount : (k ++ ".#", Value.int xs.length) = (k ++ "." ++ "#", Value.int xs.length) := by
    rw [String.append_assoc]
    rfl
  rw [hr, parsePrefix_append]
  split
  · rfl
  · rw [Assoc.insert, hcount, parsePrefix_cons hk]
    rfl

/-- What is read of one entry of an element. -/
theorem parsePrefix_element {k : String} (hk : '.' ∉ k.toList) (i : Nat) (t : String) (v : Value)
    (es : Flat) :
    parsePrefix ((elementPre k i ++ t, v) :: es) k '.' =
      (toString i ++ "." ++ t, v) :: parsePrefix es k '.' := by
  have hkey : elementPre k i ++ t = k ++ "." ++ (toString i ++ "." ++ t) := by
    simp only [elementPre, String.append_assoc]
  have hhash : toString i ++ "." ++ t ≠ "#" := by
    intro h
    have hdot : '.' ∈ "#".toList := by
      rw [← h]
      simp
    exact absurd hdot (by decide)
  rw [hkey, parsePrefix_cons hk, if_neg hhash]

theorem parsePrefix_elements {k : String} (hk : '.' ∉ k.toList) (i : Nat) (es es' : Flat) :
    parsePrefix (es.map (fun q => (elementPre k i ++ q.1, q.2)) ++ es') k '.' =
      es.map (fun q => (toString i ++ "." ++ q.1, q.2)) ++ parsePrefix es' k '.' := by
  induction es with
  | nil => rfl
  | cons q es ih =>
    rw [List.map_cons, List.cons_append, parsePrefix_element hk, ih]
    rfl

/-- Strings are read back in order. -/
theorem parsePrefix_strings {k : String} (hk : '.' ∉ k.toList) {ss : List String} {i : Nat}
    {parts : List Flat}
    (h : List.Forall₂ (fun (x : Value × Nat) part => ∃ n n',
      convertToV3Structure draw x.1 (elementPre k x.2) n = .ok (part, n'))
      ((ss.map Value.str).zipIdx i) parts) :
    (parsePrefix parts.flatten k '.').map Prod.snd = ss.map Value.str := by
  induction ss generalizing i parts with
  | nil =>
    cases h
    rfl
  | cons s ss ih =>
    obtain ⟨part, parts, ⟨n, n', hpart⟩, hparts, rfl⟩ := List.forall₂_cons_left_iff.1 h
    cases hpart
    rw [List.flatten_cons, List.singleton_append, parsePrefix_element hk, List.map_cons, ih hparts]
    rfl

/-- Scalar attributes are assigned one after another. -/
theorem convertItems_scalars {d : List (String × Value)} (hd : ∀ q ∈ d, IsScalar q.2) :
    convertItems draw d pre result n =
      .ok (Assoc.insertAll result (d.map fun q => (pre ++ q.1, q.2)), n) := by
  induction d generalizing result with
  | nil => rfl
  | cons q d ih =>
    obtain ⟨key, value⟩ := q
    rw [convertItems_scalar (hd _ (.head _)), ih fun q hq => hd q (.tail _ hq)]
    rfl

/-- The flat form of an object with scalar values. -/
theorem convertToV3Structure_scalars {d : OrdDict String Value}
    (hd : ∀ q ∈ d.items, IsScalar q.2) :
    convertToV3Structure draw (.dict d.items) pre n =
      .ok (d.items.map fun q => (pre ++ q.1, q.2), n) := by
  have hnd : (Assoc.keys ([] ++ d.items.map fun q => (pre ++ q.1, q.2))).Nodup := by
    have hkeys : Assoc.keys (d.items.map fun q => (pre ++ q.1, q.2)) =
        (Assoc.keys d.items).map (pre ++ ·) := by
      simp [Assoc.keys]
    rw [List.nil_append, hkeys]
    exact d.nodup.map fun _ _ h => (String.append_right_inj pre).1 h
  rw [convertToV3Structure, convertItems_scalars hd, Assoc.insertAll_append hnd, List.nil_append]

/-! ## Lists of objects -/

/-- The step of `parse_attr_list`. -/
def attrStep (attrs : List (String × Flat)) (p : String × Value) :
    Except Exc (List (String × Flat)) :=
  match splitOnce '.' p.1 with
  | none => throw (.valueError "not enough values to unpack (expected 2, got 1)")
  | some (idx, key) =>
    pure (Assoc.insert idx (Assoc.insert key p.2 ((Assoc.lookup idx attrs).getD [])) attrs)

theorem parseAttrList_eq (source : Flat) (k : String) :
    parseAttrList source k '.' =
      ((parsePrefix source k '.').foldlM attrStep [] >>= fun attrs => pure (attrs.map Prod.snd)) :=
        rfl

/-- An entry of the element `i` goes to the object of `i`, which stands last if there is one. -/
theorem attrStep_eq {attrs m : List (String × Flat)} {i : Nat} (hi : toString i ∉ Assoc.keys attrs)
    (key : String) (v : Value) :
    attrStep (attrs ++ m) (toString i ++ "." ++ key, v) =
      .ok (attrs ++ Assoc.insert (toString i)
        (Assoc.insert key v ((Assoc.lookup (toString i) m).getD [])) m) := by
  have hsep : "." = String.singleton '.' := rfl
  rw [attrStep, hsep, splitOnce_append (not_mem_toString (by decide) i)]
  dsimp only
  rw [Assoc.lookup_append_of_not_mem hi, Assoc.insert_append_of_not_mem hi]
  rfl

/-- The entries of an element make up its object. -/
theorem foldlM_attrStep {attrs : List (String × Flat)} {i : Nat}
    (hi : toString i ∉ Assoc.keys attrs) (d obj : Flat) :
    (d.map fun q =>
      (toString i ++ "." ++ q.1, q.2)).foldlM attrStep (attrs ++ [(toString i, obj)]) =
      .ok (attrs ++ [(toString i, Assoc.insertAll obj d)]) := by
  induction d generalizing obj with
  | nil => rfl
  | cons q d ih =>
    rw [List.map_cons, List.foldlM_cons, attrStep_eq hi, ok_bind]
    simp only [Assoc.lookup_cons, Assoc.insert, if_true, Option.getD_some]
    exact ih _

/-- An object that is not empty is read back behind those before it. -/
theorem foldlM_attrStep_object {attrs : List (String × Flat)} {i : Nat}
    (hi : toString i ∉ Assoc.keys attrs) {d : OrdDict String Value} (hd : d.items ≠ []) :
    (d.items.map fun q => (toString i ++ "." ++ q.1, q.2)).foldlM attrStep attrs =
      .ok (attrs ++ [(toString i, d.items)]) := by
  obtain ⟨q, rest, hitems⟩ := List.exists_cons_of_ne_nil hd
  have hnd : (Assoc.keys ([q] ++ rest)).Nodup := by
    have hd := d.nodup
    rwa [hitems] at hd
  have hfirst := attrStep_eq (m := []) hi q.1 q.2
  rw [List.append_nil] at hfirst
  rw [hitems, List.map_cons, List.foldlM_cons, hfirst, ok_bind]
  refine (foldlM_attrStep hi rest _).trans ?_
  have hall : Assoc.insertAll [q] rest = q :: rest := Assoc.insertAll_append hnd
  exact congrArg (fun obj => Except.ok (attrs ++ [(toString i, obj)])) hall

/-- Objects are read back in order. -/
theorem foldlM_attrStep_objects {k : String} (hk : '.' ∉ k.toList)
    {ds : List (OrdDict String Value)}
    (hds : ∀ d ∈ ds, d.items ≠ [] ∧ ∀ q ∈ d.items, IsScalar q.2) {i : Nat} {parts : List Flat}
    (h : List.Forall₂ (fun (x : Value × Nat) part => ∃ n n',
      convertToV3Structure draw x.1 (elementPre k x.2) n = .ok (part, n'))
      ((ds.map fun d => Value.dict d.items).zipIdx i) parts)
    {attrs : List (String × Flat)} (hattrs : ∀ j, i ≤ j → toString j ∉ Assoc.keys attrs) :
    (parsePrefix parts.flatten k '.').foldlM attrStep attrs =
      .ok (attrs ++ (ds.zipIdx i).map fun p => (toString p.2, p.1.items)) := by
  induction ds generalizing i parts attrs with
  | nil =>
    cases h
    simp [parsePrefix]
  | cons d ds ih =>
    obtain ⟨part, parts, ⟨n, n', hpart⟩, hparts, rfl⟩ := List.forall₂_cons_left_iff.1 h
    obtain ⟨hne, hscalar⟩ := hds d (.head _)
    rw [convertToV3Structure_scalars hscalar] at hpart
    cases hpart
    have hi := hattrs i le_rfl
    have hattrs' : ∀ j, i + 1 ≤ j → toString j ∉ Assoc.keys (attrs ++ [(toString i, d.items)]) := by
      intro j hj hmem
      rw [Assoc.keys_append, List.mem_append] at hmem
      rcases hmem with hmem | hmem
      · exact hattrs j (by omega) hmem
      · have heq : j = i := Nat.repr_injective (List.mem_singleton.1 hmem)
        omega
    have hrest := ih (fun d hd => hds d (.tail _ hd)) hparts hattrs'
    rw [List.flatten_cons, parsePrefix_elements hk, List.foldlM_append,
      foldlM_attrStep_object hi hne, ok_bind, hrest, List.zipIdx_cons, List.map_cons,
      List.append_assoc, List.singleton_append]

/-- A list of strings and a list of objects with scalar values are read back as they were, whatever
the other attributes are and whichever numbers are drawn. -/
theorem list_attributes_survive (draw : Nat → Nat) (n : Nat) (attributes : OrdDict String Value)
    (hdot : ∀ q ∈ attributes.items, '.' ∉ q.1.toList) (r : Flat × Nat)
    (h : convertToV3Structure draw (.dict attributes.items) "" n = .ok r) (k : String) :
    (∀ ss : List String, attributes.get? k = some (.list (ss.map .str)) →
      parseList r.1 k '.' = ss.map .str) ∧
    ∀ ds : List (OrdDict String Value), (∀ d ∈ ds, d.items ≠ [] ∧ ∀ q ∈ d.items, IsScalar q.2) →
      attributes.get? k = some (.list (ds.map fun d => .dict d.items)) →
      parseAttrList r.1 k '.' = .ok (ds.map OrdDict.items) := by
  have hread : ∀ xs, attributes.get? k = some (.list xs) → '.' ∉ k.toList ∧
      ∃ parts : List Flat, parsePrefix r.1 k '.' = parsePrefix parts.flatten k '.' ∧
        List.Forall₂ (fun (x : Value × Nat) part => ∃ n n',
          convertToV3Structure draw x.1 (elementPre k x.2) n = .ok (part, n'))
            (xs.zipIdx 0) parts := by
    intro xs hk
    have hmem := OrdDict.get?_eq_some.1 hk
    have hkdot := hdot _ hmem
    obtain ⟨n₁, r₁, hblock, hr⟩ := convertItems_block attributes.nodup hdot hmem id h
    obtain ⟨parts, hparts, hforall⟩ := parsePrefix_list hkdot hblock
    refine ⟨hkdot, parts, ?_, hforall⟩
    rw [parsePrefix_filter, hr, hparts]
  constructor
  · intro ss hk
    obtain ⟨hkdot, parts, hparse, hparts⟩ := hread _ hk
    rw [parseList, hparse, parsePrefix_strings hkdot hparts]
  · intro ds hds hk
    obtain ⟨hkdot, parts, hparse, hparts⟩ := hread _ hk
    rw [parseAttrList_eq, hparse,
      foldlM_attrStep_objects hkdot hds hparts fun j _ => List.not_mem_nil, ok_bind]
    have hitems : ((ds.zipIdx 0).map fun p => (toString p.2, p.1.items)).map Prod.snd =
        ((ds.zipIdx 0).map Prod.fst).map OrdDict.items := by
      rw [List.map_map, List.map_map]
      rfl
    rw [List.nil_append, hitems, List.zipIdx_map_fst]
    rfl

/-- An instance with security groups and two networks. -/
def exampleLists : OrdDict String Value where
  items := [("name", .str "vm"), ("security_groups", .list [.str "default", .str "k8s"]),
    ("network", .list [.dict [("uuid", .str "n1"), ("port", .str "p1")],
      .dict [("uuid", .str "n2")]])]
  nodup := by decide

theorem list_attributes_survive_example :
    ∃ r, convertToV3Structure (fun _ => 7) (.dict exampleLists.items) "" 0 = .ok r ∧
      parseList r.1 "security_groups" '.' = [.str "default", .str "k8s"] ∧
      parseAttrList r.1 "network" '.' =
        .ok [[("uuid", .str "n1"), ("port", .str "p1")], [("uuid", .str "n2")]] := by
  refine ⟨_, rfl, ?_, ?_⟩
  · exact (list_attributes_survive (fun _ => 7) 0 exampleLists (by decide) _ rfl
      "security_groups").1 ["default", "k8s"] rfl
  · let networks : List (OrdDict String Value) :=
      [⟨[("uuid", .str "n1"), ("port", .str "p1")], by decide⟩, ⟨[("uuid", .str "n2")], by decide⟩]
    refine (list_attributes_survive (fun _ => 7) 0 exampleLists (by decide) _ rfl "network").2
      networks (fun d hd => ?_) rfl
    simp only [networks, List.mem_cons, List.not_mem_nil, or_false] at hd
    rcases hd with rfl | rfl <;> exact ⟨by simp, by simp [IsScalar]⟩

end

/-! ## Objects -/

section
variable {source : Flat} {k : String}

/-- What `_parse_prefix` finds under a key. -/
theorem lookup_parsePrefix (hk : '.' ∉ k.toList) (source : Flat) (key : String) :
    Assoc.lookup key (parsePrefix source k '.') =
      if key = "#" then none else Assoc.lookup (k ++ "." ++ key) source := by
  have hsep : "." = String.singleton '.' := rfl
  induction source with
  | nil => simp [parsePrefix]
  | cons q source ih =>
    obtain ⟨compkey, v⟩ := q
    rw [Assoc.lookup_cons]
    by_cases hkey : compkey = k ++ "." ++ key
    · rw [hkey, parsePrefix_cons hk, if_pos rfl]
      by_cases hhash : key = "#"
      · rw [if_pos hhash, if_pos hhash, ih, if_pos hhash]
      · rw [if_neg hhash, if_neg hhash, Assoc.lookup_cons, if_pos rfl]
    · rw [if_neg hkey, ← ih, parsePrefix, List.filterMap_cons]
      cases hsplit : splitOnce '.' compkey with
      | none => rfl
      | some s =>
        obtain ⟨curPre, rest⟩ := s
        by_cases hskip : curPre ≠ k ∨ rest = "#"
        · simp only [if_pos hskip]
          rfl
        · -- the entry has another key
          obtain rfl : curPre = k := not_not.1 fun h => hskip (.inl h)
          have hrest : rest ≠ key := fun h => hkey (h ▸ eq_of_splitOnce hsplit)
          simp only [if_neg hskip, Assoc.lookup_cons, if_neg hrest]
          rfl

/-- The keys that `_parse_prefix` finds are distinct. -/
theorem nodup_parsePrefix (hnd : (Assoc.keys source).Nodup) (k : String) (sep : Char) :
    (Assoc.keys (parsePrefix source k sep)).Nodup := by
  let rest? : String → Option String := fun compkey =>
    match splitOnce sep compkey with
    | none => none
    | some (curPre, rest) => if curPre ≠ k ∨ rest = "#" then none else some rest
  have hkeys : Assoc.keys (parsePrefix source k sep) = (Assoc.keys source).filterMap rest? := by
    rw [Assoc.keys, parsePrefix, List.map_filterMap, Assoc.keys, List.filterMap_map]
    refine List.filterMap_congr fun q _ => ?_
    simp only [rest?, Function.comp]
    cases splitOnce sep q.1 with
    | none => rfl
    | some s =>
      dsimp only
      split <;> rfl
  have hrest : ∀ key rest, rest ∈ rest? key → key = k ++ String.singleton sep ++ rest := by
    intro key rest h
    simp only [rest?] at h
    split at h
    · cases h
    · next curPre rest' hsplit =>
      split at h
      · cases h
      · next hkeep =>
        cases h
        obtain rfl : curPre = k := not_not.1 fun h => hkeep (.inl h)
        exact eq_of_splitOnce hsplit
  rw [hkeys]
  exact List.Nodup.filterMap (fun a a' b h h' => (hrest a b h).trans (hrest a' b h').symm) hnd

/-- `parse_dict` collects what `_parse_prefix` finds. -/
theorem parseDict_eq (hnd : (Assoc.keys source).Nodup) (k : String) (sep : Char) :
    parseDict source k sep = parsePrefix source k sep :=
  Assoc.insertAll_append (by simpa using nodup_parsePrefix hnd k sep)

/-- What an object is read back as: its entries without `#`, and its count under `%` unless it has
this key. -/
theorem lookup_parseDict {draw : Nat → Nat} {n : Nat} {attributes : OrdDict String Value}
    (hdot : ∀ q ∈ attributes.items, '.' ∉ q.1.toList) {r : Flat × Nat}
    (h : convertToV3Structure draw (.dict attributes.items) "" n = .ok r)
    {d : OrdDict String Value} (hd : attributes.get? k = some (.dict d.items)) (key : String) :
    Assoc.lookup key (parseDict r.1 k '.') =
      if key = "#" then none
      else (d.get? key).or (if key = "%" then some (.int d.size) else none) := by
  have hmem := OrdDict.get?_eq_some.1 hd
  have hk := hdot _ hmem
  obtain ⟨n₁, r₁, hblock, hr⟩ := convertItems_block attributes.nodup hdot hmem id h
  rw [parseDict_eq (keys_convertToV3Structure draw _ _ _ _ h).1, parsePrefix_filter, hr,
    lookup_parsePrefix hk]
  cases hblock
  have hentries : ∀ ps : List (String × Value),
      Assoc.lookup (k ++ "." ++ key) (ps.map fun p => ("" ++ k ++ "." ++ p.1, p.2)) =
        Assoc.lookup key ps := by
    intro ps
    induction ps with
    | nil => rfl
    | cons p ps ih =>
      rw [List.map_cons, Assoc.lookup_cons, ih, String.empty_append]
      simp only [String.append_right_inj]
      rfl
  have hnd : (Assoc.keys (d.items.map fun p => ("" ++ k ++ "." ++ p.1, p.2))).Nodup := by
    have hkeys : Assoc.keys (d.items.map fun p => ("" ++ k ++ "." ++ p.1, p.2)) =
        (Assoc.keys d.items).map ("" ++ k ++ "." ++ ·) := by
      simp [Assoc.keys]
    rw [hkeys]
    exact d.nodup.map fun _ _ h => (String.append_right_inj _).1 h
  have hcount : "" ++ k ++ ".%" = k ++ "." ++ "%" := by
    rw [String.empty_append, String.append_assoc]
    rfl
  rw [Assoc.lookup_insertAll hnd, hentries, hcount, Assoc.lookup_insert, Assoc.lookup_nil]
  simp only [String.append_right_inj, @eq_comm _ "%" key]
  rfl

/-- An object is read back as it was iff it has the key `%` and not the key `#`. -/
theorem parseDict_eq_iff {draw : Nat → Nat} {n : Nat} {attributes : OrdDict String Value}
    (hdot : ∀ q ∈ attributes.items, '.' ∉ q.1.toList) {r : Flat × Nat}
    (h : convertToV3Structure draw (.dict attributes.items) "" n = .ok r)
    {d : OrdDict String Value} (hd : attributes.get? k = some (.dict d.items)) :
    (∀ key, Assoc.lookup key (parseDict r.1 k '.') = d.get? key) ↔ "%" ∈ d.keys ∧ "#" ∉ d.keys := by
  have hget : ∀ {key}, (d.get? key).isSome ↔ key ∈ d.keys := Assoc.lookup_isSome
  simp only [lookup_parseDict hdot h hd]
  constructor
  · intro heq
    constructor
    · have hcount := heq "%"
      rw [← hget, ← hcount]
      cases d.get? "%" <;> simp
    · have hmark := heq "#"
      rw [← hget, ← hmark]
      simp
  · rintro ⟨hcount, hmark⟩ key
    by_cases hk : key = "#"
    · rw [if_pos hk, hk, eq_comm]
      exact Assoc.lookup_eq_none.2 hmark
    · rw [if_neg hk]
      by_cases hp : key = "%"
      · obtain ⟨v, hv⟩ := Option.isSome_iff_exists.1 (hget.2 hcount)
        rw [hp, hv]
        rfl
      · rw [if_neg hp, Option.or_none]

end

end Terraform
