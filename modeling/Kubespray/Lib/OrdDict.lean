import Mathlib.Data.List.Nodup
import Mathlib.Data.List.Basic
import Mathlib.Data.List.Perm.Subperm

/-!
# Insertion-ordered dictionaries

A dictionary that remembers the order in which its keys were first inserted, as an association
list. `Assoc` has the operations on plain lists of pairs: assignment replaces the value of a key
in place or appends a new pair, deletion drops the pair. `OrdDict` is the association list
together with the proof that no key occurs twice, so that a dictionary with a repeated key cannot
be built and membership, lookup and order agree.
-/

universe u v w

namespace Assoc

variable {κ : Type u} {α : Type v}

/-- The keys, in insertion order. -/
def keys (l : List (κ × α)) : List κ := l.map Prod.fst

@[simp] theorem keys_nil : keys ([] : List (κ × α)) = [] := rfl
@[simp] theorem keys_cons (p : κ × α) (l : List (κ × α)) : keys (p :: l) = p.1 :: keys l := rfl
@[simp] theorem keys_append (l m : List (κ × α)) : keys (l ++ m) = keys l ++ keys m :=
  List.map_append
@[simp] theorem length_keys (l : List (κ × α)) : (keys l).length = l.length := List.length_map _

/-- A pair's key is one of the keys. -/
theorem mem_keys_of_mem {l : List (κ × α)} {p : κ × α} (h : p ∈ l) : p.1 ∈ keys l :=
  List.mem_map_of_mem h

variable [DecidableEq κ]

/-- The value of the first pair with key `k`. -/
def lookup (k : κ) : List (κ × α) → Option α
  | [] => none
  | (k', v) :: l => if k' = k then some v else lookup k l

/-- Assignment `d[k] = v`: in place when the key is there, at the end otherwise. -/
def insert (k : κ) (v : α) : List (κ × α) → List (κ × α)
  | [] => [(k, v)]
  | (k', v') :: l => if k' = k then (k', v) :: l else (k', v') :: insert k v l

/-- Deletion `del d[k]`. -/
def erase (k : κ) (l : List (κ × α)) : List (κ × α) := l.filter (fun p => p.1 ≠ k)

/-- The assignments `d[k] = v` for the pairs of a list, in order. -/
def insertAll (l : List (κ × α)) (ps : List (κ × α)) : List (κ × α) :=
  ps.foldl (fun l p => insert p.1 p.2 l) l

/-! ## Lookup -/

@[simp] theorem lookup_nil (k : κ) : lookup k ([] : List (κ × α)) = none := rfl

theorem lookup_cons (k k' : κ) (v : α) (l : List (κ × α)) :
    lookup k ((k', v) :: l) = if k' = k then some v else lookup k l := rfl

/-- A key is found iff it is one of the keys. -/
theorem lookup_isSome {k : κ} {l : List (κ × α)} : (lookup k l).isSome ↔ k ∈ keys l := by
  induction l with
  | nil => simp
  | cons p l ih =>
    obtain ⟨k', v⟩ := p
    by_cases h : k' = k
    · simp [lookup_cons, h]
    · simp [lookup_cons, h, ih, Ne.symm h]

theorem lookup_eq_none {k : κ} {l : List (κ × α)} : lookup k l = none ↔ k ∉ keys l := by
  rw [← lookup_isSome, Bool.not_eq_true, Option.isSome_eq_false_iff, Option.isNone_iff_eq_none]

/-- A change of the values is seen by lookup. -/
theorem lookup_map_snd {β : Type w} (f : α → β) (k : κ) (l : List (κ × α)) :
    lookup k (l.map fun p => (p.1, f p.2)) = (lookup k l).map f := by
  induction l with
  | nil => rfl
  | cons p l ih =>
    obtain ⟨k', v⟩ := p
    rw [List.map_cons, lookup_cons, lookup_cons, ih]
    split <;> rfl

/-- What lookup finds is a pair of the list. -/
theorem mem_of_lookup {k : κ} {v : α} {l : List (κ × α)} (h : lookup k l = some v) :
    (k, v) ∈ l := by
  induction l with
  | nil => cases h
  | cons p l ih =>
    obtain ⟨k', v'⟩ := p
    rw [lookup_cons] at h
    split at h
    · next he => cases h; subst he; exact .head _
    · exact .tail _ (ih h)

/-- With distinct keys, every pair of the list is what lookup finds. -/
theorem lookup_of_mem {k : κ} {v : α} {l : List (κ × α)} (hnd : (keys l).Nodup)
    (h : (k, v) ∈ l) : lookup k l = some v := by
  induction l with
  | nil => cases h
  | cons p l ih =>
    obtain ⟨k', v'⟩ := p
    rw [keys_cons, List.nodup_cons] at hnd
    rw [lookup_cons]
    rcases List.mem_cons.1 h with he | h
    · cases he; exact if_pos rfl
    · have hm : k ∈ keys l := mem_keys_of_mem h
      rw [if_neg (fun he : k' = k => hnd.1 (he ▸ hm))]
      exact ih hnd.2 h

/-- With distinct keys, a key stands for one value. -/
theorem eq_of_mem {k : κ} {v v' : α} {l : List (κ × α)} (hnd : (keys l).Nodup)
    (h : (k, v) ∈ l) (h' : (k, v') ∈ l) : v = v' := by
  have hl := lookup_of_mem hnd h
  rw [lookup_of_mem hnd h'] at hl
  exact (Option.some.inj hl).symm

/-- Dictionaries with the same lookups have the same entries. -/
theorem perm_of_lookup {l m : List (κ × α)} (hl : (keys l).Nodup) (hm : (keys m).Nodup)
    (h : ∀ k, lookup k l = lookup k m) : l.Perm m := by
  refine (List.perm_ext_iff_of_nodup (.of_map Prod.fst hl) (.of_map Prod.fst hm)).2 fun p => ?_
  obtain ⟨k, v⟩ := p
  constructor
  · intro hp
    exact mem_of_lookup ((h k).symm.trans (lookup_of_mem hl hp))
  · intro hp
    exact mem_of_lookup ((h k).trans (lookup_of_mem hm hp))

/-- What stands behind a list without the key is found. -/
theorem lookup_append_of_not_mem {k : κ} {l : List (κ × α)} (h : k ∉ keys l) (m : List (κ × α)) :
    lookup k (l ++ m) = lookup k m := by
  induction l with
  | nil => rfl
  | cons p l ih =>
    obtain ⟨k', v'⟩ := p
    rw [keys_cons, List.mem_cons, not_or] at h
    rw [List.cons_append, lookup_cons, if_neg (Ne.symm h.1), ih h.2]

/-! ## Assignment -/

theorem lookup_insert (k k' : κ) (v : α) (l : List (κ × α)) :
    lookup k' (insert k v l) = if k = k' then some v else lookup k' l := by
  induction l with
  | nil => simp [insert, lookup_cons]
  | cons p l ih =>
    obtain ⟨k₀, v₀⟩ := p
    by_cases h₀ : k₀ = k
    · subst h₀; by_cases h : k₀ = k' <;> simp [insert, lookup_cons, h]
    · by_cases h : k₀ = k'
      · subst h; simp [insert, lookup_cons, h₀, Ne.symm h₀]
      · simp [insert, lookup_cons, h₀, h, ih]

@[simp] theorem lookup_insert_self (k : κ) (v : α) (l : List (κ × α)) :
    lookup k (insert k v l) = some v := by rw [lookup_insert, if_pos rfl]

theorem lookup_insert_of_ne {k k' : κ} (h : k ≠ k') (v : α) (l : List (κ × α)) :
    lookup k' (insert k v l) = lookup k' l := by rw [lookup_insert, if_neg h]

/-- Assigning to a key that is there keeps the keys. -/
theorem keys_insert_of_mem {k : κ} {l : List (κ × α)} (h : k ∈ keys l) (v : α) :
    keys (insert k v l) = keys l := by
  induction l with
  | nil => cases h
  | cons p l ih =>
    obtain ⟨k₀, v₀⟩ := p
    by_cases h₀ : k₀ = k
    · simp [insert, h₀]
    · have : k ∈ keys l := by simpa [Ne.symm h₀] using h
      simp [insert, h₀, ih this]

/-- Assigning to a new key appends the pair. -/
theorem insert_of_not_mem {k : κ} {l : List (κ × α)} (h : k ∉ keys l) (v : α) :
    insert k v l = l ++ [(k, v)] := by
  induction l with
  | nil => rfl
  | cons p l ih =>
    obtain ⟨k₀, v₀⟩ := p
    simp only [keys_cons, List.mem_cons, not_or] at h
    simp [insert, Ne.symm h.1, ih h.2]

/-- An assignment passes over a list without the key. -/
theorem insert_append_of_not_mem {k : κ} {l : List (κ × α)} (h : k ∉ keys l) (v : α)
    (m : List (κ × α)) : insert k v (l ++ m) = l ++ insert k v m := by
  induction l with
  | nil => rfl
  | cons p l ih =>
    obtain ⟨k', v'⟩ := p
    rw [keys_cons, List.mem_cons, not_or] at h
    rw [List.cons_append, insert, if_neg (Ne.symm h.1), ih h.2, List.cons_append]

theorem keys_insert (k : κ) (v : α) (l : List (κ × α)) :
    keys (insert k v l) = if k ∈ keys l then keys l else keys l ++ [k] := by
  split
  · next h => exact keys_insert_of_mem h v
  · next h => rw [insert_of_not_mem h]; simp

@[simp] theorem mem_keys_insert {k k' : κ} {v : α} {l : List (κ × α)} :
    k' ∈ keys (insert k v l) ↔ k' = k ∨ k' ∈ keys l := by
  rw [keys_insert]
  split
  · next h => exact ⟨.inr, fun h' => h'.elim (fun e => e ▸ h) id⟩
  · rw [List.mem_append, List.mem_singleton, or_comm]

theorem nodup_keys_insert {l : List (κ × α)} (h : (keys l).Nodup) (k : κ) (v : α) :
    (keys (insert k v l)).Nodup := by
  rw [keys_insert]
  split
  · exact h
  · next hk =>
    refine List.nodup_append.2 ⟨h, List.nodup_singleton k, fun a ha b hb he => hk ?_⟩
    rwa [← List.mem_singleton.1 hb, ← he]

/-- Assigning the value that is already there changes nothing. -/
theorem insert_of_lookup {k : κ} {v : α} {l : List (κ × α)} (h : lookup k l = some v) :
    insert k v l = l := by
  induction l with
  | nil => cases h
  | cons p l ih =>
    obtain ⟨k₀, v₀⟩ := p
    rw [lookup_cons] at h
    by_cases h₀ : k₀ = k
    · rw [if_pos h₀] at h; cases h; simp [insert, h₀]
    · rw [if_neg h₀] at h; simp [insert, h₀, ih h]

/-- Every pair of the result is the assigned one or an old one. -/
theorem mem_insert {k : κ} {v : α} {l : List (κ × α)} {p : κ × α} (h : p ∈ insert k v l) :
    p.2 = v ∧ p.1 = k ∨ p ∈ l := by
  induction l with
  | nil => rw [insert, List.mem_singleton] at h; subst h; exact .inl ⟨rfl, rfl⟩
  | cons q l ih =>
    obtain ⟨k₀, v₀⟩ := q
    rw [insert] at h
    split at h
    · next he =>
      rcases List.mem_cons.1 h with rfl | h
      · exact .inl ⟨rfl, he⟩
      · exact .inr (.tail _ h)
    · rcases List.mem_cons.1 h with rfl | h
      · exact .inr (.head _)
      · exact (ih h).imp_right (.tail _)

/-- A pair with another key is kept. -/
theorem mem_insert_of_ne {k : κ} {v : α} {l : List (κ × α)} {p : κ × α} (hk : k ≠ p.1)
    (h : p ∈ l) : p ∈ insert k v l := by
  induction l with
  | nil => cases h
  | cons q l ih =>
    obtain ⟨k₀, v₀⟩ := q
    rw [insert]
    split
    · next he =>
      rcases List.mem_cons.1 h with rfl | h
      · exact absurd he.symm hk
      · exact .tail _ h
    · rcases List.mem_cons.1 h with rfl | h
      · exact .head _
      · exact .tail _ (ih h)

/-- An attribute that is distinct over the values stays distinct when the assigned value has one
that no value had. -/
theorem nodup_map_insert {β : Type w} (f : α → β) {k : κ} {v : α} {l : List (κ × α)}
    (hnd : (l.map fun p => f p.2).Nodup) (hv : f v ∉ l.map fun p => f p.2) :
    ((insert k v l).map fun p => f p.2).Nodup := by
  induction l with
  | nil => simp [insert]
  | cons q l ih =>
    obtain ⟨k₀, v₀⟩ := q
    simp only [List.map_cons, List.nodup_cons, List.mem_cons, not_or] at hnd hv
    rw [insert]
    split
    · exact List.nodup_cons.2 ⟨hv.2, hnd.2⟩
    · refine List.nodup_cons.2 ⟨fun hm => ?_, ih hnd.2 hv.2⟩
      obtain ⟨p, hp, he⟩ := List.mem_map.1 hm
      rcases mem_insert hp with ⟨hpv, -⟩ | hp
      · exact hv.1 (by rw [← hpv, he])
      · exact hnd.1 (List.mem_map.2 ⟨p, hp, he⟩)

/-- The entries whose keys satisfy `p`, after an assignment. -/
theorem filter_insert (p : κ → Bool) (k : κ) (v : α) (l : List (κ × α)) :
    (insert k v l).filter (fun q => p q.1) =
      if p k then insert k v (l.filter fun q => p q.1) else l.filter fun q => p q.1 := by
  induction l with
  | nil => cases hp : p k <;> simp [insert, hp]
  | cons q l ih =>
    obtain ⟨k₀, v₀⟩ := q
    by_cases h₀ : k₀ = k
    · subst h₀
      cases hp : p k₀ <;> simp [insert, hp]
    · cases hp₀ : p k₀ <;> cases hp : p k <;> simp [insert, h₀, hp₀, hp] at ih ⊢ <;> exact ih

/-! ## Deletion -/

@[simp] theorem keys_erase (k : κ) (l : List (κ × α)) :
    keys (erase k l) = (keys l).filter (· ≠ k) := by
  rw [keys, erase, keys, List.filter_map]; rfl

/-- A pair with another key is kept. -/
theorem mem_erase_of_ne {k : κ} {l : List (κ × α)} {p : κ × α} (hk : k ≠ p.1) (h : p ∈ l) :
    p ∈ erase k l :=
  List.mem_filter.2 ⟨h, by simpa using hk.symm⟩

/-! ## Assigning many pairs -/

@[simp] theorem insertAll_nil (l : List (κ × α)) : insertAll l [] = l := rfl
@[simp] theorem insertAll_cons (l : List (κ × α)) (p : κ × α) (ps : List (κ × α)) :
    insertAll l (p :: ps) = insertAll (insert p.1 p.2 l) ps := rfl

theorem mem_keys_insertAll {k : κ} {l ps : List (κ × α)} :
    k ∈ keys (insertAll l ps) ↔ k ∈ keys l ∨ k ∈ keys ps := by
  induction ps generalizing l with
  | nil => simp
  | cons p ps ih => rw [insertAll_cons, ih, mem_keys_insert, keys_cons, List.mem_cons]; tauto

/-- Old keys keep their places, and new ones come after them. -/
theorem keys_insertAll {l ps : List (κ × α)} (h : (keys ps).Nodup) :
    keys (insertAll l ps) = keys l ++ (keys ps).filter (· ∉ keys l) := by
  induction ps generalizing l with
  | nil => simp
  | cons p ps ih =>
    rw [keys_cons, List.nodup_cons] at h
    rw [insertAll_cons, ih h.2, keys_cons, keys_insert]
    by_cases hp : p.1 ∈ keys l
    · simp [hp]
    · have hrest : (keys ps).filter (· ∉ keys l ++ [p.1]) = (keys ps).filter (· ∉ keys l) := by
        refine List.filter_congr fun k hk => ?_
        have hne : k ≠ p.1 := fun heq => h.1 (heq ▸ hk)
        simp [hne]
      rw [if_neg hp, List.filter_cons_of_pos (by simpa using hp), hrest, List.append_assoc,
        List.singleton_append]

/-- Every pair of the result is an assigned one or an old one. -/
theorem mem_of_mem_insertAll {l ps : List (κ × α)} {p : κ × α} (h : p ∈ insertAll l ps) :
    p ∈ l ∨ p ∈ ps := by
  induction ps generalizing l with
  | nil => exact .inl h
  | cons q ps ih =>
    rcases ih h with h | h
    · rcases mem_insert h with ⟨hv, hk⟩ | h
      · obtain rfl : p = q := Prod.ext hk hv
        exact .inr (.head _)
      · exact .inl h
    · exact .inr (.tail _ h)

theorem nodup_keys_insertAll {l : List (κ × α)} (h : (keys l).Nodup) (ps : List (κ × α)) :
    (keys (insertAll l ps)).Nodup := by
  induction ps generalizing l with
  | nil => exact h
  | cons p ps ih => exact ih (nodup_keys_insert h _ _)

/-- A key that is not assigned is found as before. -/
theorem lookup_insertAll_of_not_mem {k : κ} {l ps : List (κ × α)} (h : k ∉ keys ps) :
    lookup k (insertAll l ps) = lookup k l := by
  induction ps generalizing l with
  | nil => rfl
  | cons p ps ih =>
    rw [keys_cons, List.mem_cons, not_or] at h
    rw [insertAll_cons, ih h.2, lookup_insert_of_ne (Ne.symm h.1)]

theorem insertAll_insertAll (l ps qs : List (κ × α)) :
    insertAll (insertAll l ps) qs = insertAll l (ps ++ qs) :=
  List.foldl_append.symm

/-- With distinct keys, the assigned pairs are found, and every other key as before. -/
theorem lookup_insertAll {k : κ} {l ps : List (κ × α)} (h : (keys ps).Nodup) :
    lookup k (insertAll l ps) = (lookup k ps).or (lookup k l) := by
  induction ps generalizing l with
  | nil => simp
  | cons p ps ih =>
    obtain ⟨k₀, v₀⟩ := p
    rw [keys_cons, List.nodup_cons] at h
    rw [insertAll_cons, ih h.2, lookup_insert, lookup_cons]
    by_cases hk : k₀ = k
    · subst hk; simp [lookup_eq_none.2 h.1]
    · simp [hk]

/-- Assigning pairs with new, distinct keys appends them. -/
theorem insertAll_append {l ps : List (κ × α)} (h : (keys (l ++ ps)).Nodup) :
    insertAll l ps = l ++ ps := by
  induction ps generalizing l with
  | nil => simp
  | cons p ps ih =>
    have hp : p.1 ∉ keys l := by
      rw [keys_append, keys_cons, List.nodup_append] at h
      exact fun hm => h.2.2 _ hm _ (.head _) rfl
    rw [insertAll_cons, insert_of_not_mem hp, ih (by simpa using h)]
    simp

/-- The entries whose keys satisfy `p`, after many assignments. -/
theorem filter_insertAll (p : κ → Bool) (l ps : List (κ × α)) :
    (insertAll l ps).filter (fun q => p q.1) =
      insertAll (l.filter fun q => p q.1) (ps.filter fun q => p q.1) := by
  induction ps generalizing l with
  | nil => rfl
  | cons q ps ih =>
    rw [insertAll_cons, ih, filter_insert]
    cases hp : p q.1 <;> simp [hp]

/-- Assigning what is already there changes nothing. -/
theorem insertAll_of_lookup {l ps : List (κ × α)} (h : ∀ p ∈ ps, lookup p.1 l = some p.2) :
    insertAll l ps = l := by
  induction ps with
  | nil => rfl
  | cons p ps ih =>
    rw [insertAll_cons, insert_of_lookup (h p (.head _))]
    exact ih fun q hq => h q (.tail _ hq)

end Assoc

/-! ## Dictionaries without repeated keys -/

/-- An association list in which no key occurs twice. -/
structure OrdDict (κ : Type u) (α : Type v) where
  /-- The pairs, in insertion order. -/
  items : List (κ × α)
  /-- No key occurs twice. -/
  nodup : (Assoc.keys items).Nodup

namespace OrdDict

variable {κ : Type u} {α : Type v}

@[ext] theorem ext {d e : OrdDict κ α} (h : d.items = e.items) : d = e := by
  cases d; cases e; cases h; rfl

/-- The dictionary without entries. -/
def empty : OrdDict κ α := ⟨[], .nil⟩

/-- The keys, in insertion order. -/
def keys (d : OrdDict κ α) : List κ := Assoc.keys d.items

/-- The number of entries. -/
def size (d : OrdDict κ α) : Nat := d.items.length

/-- The entries whose key satisfies `p`. -/
def filter (p : κ → Bool) (d : OrdDict κ α) : OrdDict κ α where
  items := d.items.filter fun q => p q.1
  nodup := d.nodup.sublist (List.filter_sublist.map _)

theorem nodup_keys (d : OrdDict κ α) : d.keys.Nodup := d.nodup

@[simp] theorem length_keys (d : OrdDict κ α) : d.keys.length = d.size := Assoc.length_keys _

/-- The keys of a dictionary that starts with all entries of `d`. -/
theorem keys_of_items_eq_append {d e : OrdDict κ α} {ps : List (κ × α)}
    (h : e.items = d.items ++ ps) : e.keys = d.keys ++ Assoc.keys ps := by
  rw [keys, h, Assoc.keys_append]
  rfl

theorem size_le_of_items_eq_append {d e : OrdDict κ α} {ps : List (κ × α)}
    (h : e.items = d.items ++ ps) : d.size ≤ e.size := by
  rw [size, size, h, List.length_append]
  omega

/-- A dictionary all of whose keys are keys of another has at most as many entries. -/
theorem size_le_of_keys_subset {β : Type w} {d : OrdDict κ α} {e : OrdDict κ β}
    (h : d.keys ⊆ e.keys) : d.size ≤ e.size := by
  rw [← length_keys, ← length_keys]
  exact (d.nodup_keys.subperm h).length_le

@[simp] theorem items_empty : (empty : OrdDict κ α).items = [] := rfl
@[simp] theorem keys_empty : (empty : OrdDict κ α).keys = [] := rfl
@[simp] theorem items_filter (p : κ → Bool) (d : OrdDict κ α) :
    (d.filter p).items = d.items.filter fun q => p q.1 := rfl

@[simp] theorem keys_filter (p : κ → Bool) (d : OrdDict κ α) :
    (d.filter p).keys = d.keys.filter p := by
  rw [keys, keys, items_filter, Assoc.keys, Assoc.keys, List.filter_map]; rfl

/-- A filter that keeps every key keeps the dictionary. -/
theorem filter_eq_self {p : κ → Bool} {d : OrdDict κ α} (h : ∀ k ∈ d.keys, p k = true) :
    d.filter p = d :=
  ext (List.filter_eq_self.2 fun _ hq => h _ (Assoc.mem_keys_of_mem hq))

variable [DecidableEq κ]

/-- The value of a key. -/
def get? (d : OrdDict κ α) (k : κ) : Option α := Assoc.lookup k d.items

/-- Assignment `d[k] = v`. -/
def insert (d : OrdDict κ α) (k : κ) (v : α) : OrdDict κ α where
  items := Assoc.insert k v d.items
  nodup := Assoc.nodup_keys_insert d.nodup k v

/-- Deletion `del d[k]`. -/
def erase (d : OrdDict κ α) (k : κ) : OrdDict κ α where
  items := Assoc.erase k d.items
  nodup := d.nodup.sublist (List.filter_sublist.map _)

/-- The assignments `d[k] = v` for the pairs of a list, in order. -/
def insertAll (d : OrdDict κ α) (ps : List (κ × α)) : OrdDict κ α where
  items := Assoc.insertAll d.items ps
  nodup := Assoc.nodup_keys_insertAll d.nodup ps

@[simp] theorem items_insert (d : OrdDict κ α) (k : κ) (v : α) :
    (d.insert k v).items = Assoc.insert k v d.items := rfl
@[simp] theorem items_erase (d : OrdDict κ α) (k : κ) :
    (d.erase k).items = Assoc.erase k d.items := rfl
@[simp] theorem items_insertAll (d : OrdDict κ α) (ps : List (κ × α)) :
    (d.insertAll ps).items = Assoc.insertAll d.items ps := rfl

@[simp] theorem insertAll_nil (d : OrdDict κ α) : d.insertAll [] = d := rfl
@[simp] theorem insertAll_cons (d : OrdDict κ α) (p : κ × α) (ps : List (κ × α)) :
    d.insertAll (p :: ps) = (d.insert p.1 p.2).insertAll ps := rfl

@[simp] theorem mem_keys_insert {d : OrdDict κ α} {k k' : κ} {v : α} :
    k' ∈ (d.insert k v).keys ↔ k' = k ∨ k' ∈ d.keys := Assoc.mem_keys_insert

@[simp] theorem mem_keys_insertAll {d : OrdDict κ α} {k : κ} {ps : List (κ × α)} :
    k ∈ (d.insertAll ps).keys ↔ k ∈ d.keys ∨ k ∈ Assoc.keys ps := Assoc.mem_keys_insertAll

theorem keys_insertAll {d : OrdDict κ α} {ps : List (κ × α)} (h : (Assoc.keys ps).Nodup) :
    (d.insertAll ps).keys = d.keys ++ (Assoc.keys ps).filter (· ∉ d.keys) := Assoc.keys_insertAll h

@[simp] theorem keys_erase (d : OrdDict κ α) (k : κ) :
    (d.erase k).keys = d.keys.filter (· ≠ k) := Assoc.keys_erase k d.items

/-- Storing a value adds one item, or none when the key is there. -/
theorem size_insert (d : OrdDict κ α) (k : κ) (v : α) :
    (d.insert k v).size = d.size + if k ∈ d.keys then 0 else 1 := by
  have hkeys : (d.insert k v).keys = if k ∈ d.keys then d.keys else d.keys ++ [k] :=
    Assoc.keys_insert k v d.items
  rw [← length_keys, ← length_keys, hkeys]
  split
  · rfl
  · exact List.length_append

theorem size_erase_le (d : OrdDict κ α) (k : κ) : (d.erase k).size ≤ d.size :=
  List.length_filter_le _ _

theorem get?_eq_some {d : OrdDict κ α} {k : κ} {v : α} : d.get? k = some v ↔ (k, v) ∈ d.items :=
  ⟨Assoc.mem_of_lookup, Assoc.lookup_of_mem d.nodup⟩

/-- The entries after assigning pairs with distinct keys: these, and the old ones of other keys. -/
theorem mem_items_insertAll {d : OrdDict κ α} {ps : List (κ × α)} (hps : (Assoc.keys ps).Nodup)
    {p : κ × α} :
    p ∈ (d.insertAll ps).items ↔ p ∈ ps ∨ p ∈ d.items ∧ p.1 ∉ Assoc.keys ps := by
  obtain ⟨k, v⟩ := p
  have hmem : (k, v) ∈ ps ↔ Assoc.lookup k ps = some v :=
    ⟨Assoc.lookup_of_mem hps, Assoc.mem_of_lookup⟩
  rw [← get?_eq_some, ← get?_eq_some, hmem, get?, items_insertAll, Assoc.lookup_insertAll hps]
  cases hl : Assoc.lookup k ps with
  | none => simp [Assoc.lookup_eq_none.1 hl, get?]
  | some w =>
    have hk : k ∈ Assoc.keys ps := Assoc.lookup_isSome.1 (by rw [hl]; rfl)
    simp [hk]

/-- Assigning the entries of a dictionary that starts with all entries of `d` makes it of `d`. -/
theorem insertAll_of_items_eq_append {d e : OrdDict κ α} {ps : List (κ × α)}
    (h : e.items = d.items ++ ps) : d.insertAll e.items = e := by
  have hself : Assoc.insertAll d.items d.items = d.items :=
    Assoc.insertAll_of_lookup fun _ hp => Assoc.lookup_of_mem d.nodup hp
  have hnd : (Assoc.keys (d.items ++ ps)).Nodup := by rw [← h]; exact e.nodup
  ext1
  rw [items_insertAll, h, Assoc.insertAll, List.foldl_append]
  show Assoc.insertAll (Assoc.insertAll d.items d.items) ps = _
  rw [hself, Assoc.insertAll_append hnd]

/-- The entries that deletion keeps are those with another key. -/
theorem erase_eq_filter (d : OrdDict κ α) (k : κ) : d.erase k = d.filter (· ≠ k) := rfl

end OrdDict
