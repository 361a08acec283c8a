import Kubespray.Lib.PyValue

/-!
# The filter `combine`

`x | combine(y, recursive=True)` writes the entries of the object `y` into the object `x`, and goes
into the entries that are objects in both. A path into a nested object finds what `y` says of it
(`getPath_combine_of_gives`) and, where `y` says nothing (`Mentions`), what it found before
(`getPath_combine_of_not_mentions`).
-/

namespace Py.Value

mutual

/-- `x | combine(y, recursive=True)`, up to the order of the keys; below the top level a value that
is no object, and one that replaces such a value, is taken as it is. -/
def combine : Value → Value → Value
  | .dict xs, .dict ys => .dict (combineItems xs ys)
  | _, y => y

/-- The loop over the items of `y`. -/
def combineItems : List (String × Value) → List (String × Value) → List (String × Value)
  | xs, [] => xs
  | xs, (k, y) :: ys =>
    combineItems (Assoc.insert k ((Assoc.lookup k xs).elim y fun x => combine x y) xs) ys

end

/-- No object in the value has a key twice. -/
inductive Keyed : Value → Prop
  | scalar {v : Value} (h : ∀ kvs, v ≠ .dict kvs) : Keyed v
  | dict {kvs : List (String × Value)} (hnd : (Assoc.keys kvs).Nodup)
    (h : ∀ p ∈ kvs, Keyed p.2) : Keyed (.dict kvs)

/-- The value says something of the path: of its end, or of a value on the way that is no object. -/
def Mentions : Value → List String → Prop
  | .dict kvs, k :: ks => ∃ v, Assoc.lookup k kvs = some v ∧ Mentions v ks
  | _, _ => True

variable {v x y : Value} {xs ys : List (String × Value)} {k : String} {p : List String}

theorem Keyed.nodup (h : Keyed (.dict ys)) : (Assoc.keys ys).Nodup := by
  cases h with
  | scalar h => exact absurd rfl (h ys)
  | dict hnd _ => exact hnd

theorem Keyed.of_mem (h : Keyed (.dict ys)) (hy : (k, y) ∈ ys) : Keyed y := by
  cases h with
  | scalar h => exact absurd rfl (h ys)
  | dict _ h => exact h _ hy

/-! ## One level -/

@[simp] theorem combineItems_nil (xs : List (String × Value)) : combineItems xs [] = xs := by
  rw [combineItems]

theorem combineItems_cons (xs ys : List (String × Value)) (k : String) (y : Value) :
    combineItems xs ((k, y) :: ys) =
      combineItems (Assoc.insert k ((Assoc.lookup k xs).elim y fun x => combine x y) xs) ys := by
  rw [combineItems]

@[simp] theorem combine_dict (xs ys : List (String × Value)) :
    combine (.dict xs) (.dict ys) = .dict (combineItems xs ys) := by
  rw [combine]

/-- A value that is no object replaces what was there. -/
theorem combine_of_ne_dict (h : ∀ kvs, y ≠ .dict kvs) (x : Value) : combine x y = y := by
  cases y with
  | dict kvs => exact absurd rfl (h kvs)
  | none | bool | int | float | str | list => cases x <;> rw [combine] <;> simp

/-- An object replaces what is no object. -/
theorem combine_of_ne_dict_left (h : ∀ kvs, x ≠ .dict kvs) (y : Value) : combine x y = y := by
  cases x with
  | dict kvs => exact absurd rfl (h kvs)
  | none | bool | int | float | str | list => rw [combine]; simp

theorem lookup_combineItems_of_not_mem (hk : k ∉ Assoc.keys ys) (xs : List (String × Value)) :
    Assoc.lookup k (combineItems xs ys) = Assoc.lookup k xs := by
  induction ys generalizing xs with
  | nil => rw [combineItems_nil]
  | cons p ys ih =>
    obtain ⟨k', y⟩ := p
    rw [Assoc.keys_cons, List.mem_cons, not_or] at hk
    rw [combineItems_cons, ih hk.2, Assoc.lookup_insert_of_ne (Ne.symm hk.1)]

/-- What is found under a key that `y` has. -/
theorem lookup_combineItems_of_lookup (hnd : (Assoc.keys ys).Nodup)
    (hk : Assoc.lookup k ys = some y) (xs : List (String × Value)) :
    Assoc.lookup k (combineItems xs ys) =
      some ((Assoc.lookup k xs).elim y fun x => combine x y) := by
  induction ys generalizing xs with
  | nil => cases hk
  | cons p ys ih =>
    obtain ⟨k', y'⟩ := p
    rw [Assoc.keys_cons, List.nodup_cons] at hnd
    rw [combineItems_cons]
    rw [Assoc.lookup_cons] at hk
    split at hk
    · next heq =>
      subst heq
      cases hk
      rw [lookup_combineItems_of_not_mem hnd.1, Assoc.lookup_insert_self]
    · next hne => rw [ih hnd.2 hk, Assoc.lookup_insert_of_ne hne]

/-! ## Paths -/

theorem getPath_cons_eq_ok {v w : Value} {ks : List String} :
    getPath (k :: ks) v = .ok w ↔
      ∃ kvs x, v = .dict kvs ∧ Assoc.lookup k kvs = some x ∧ getPath ks x = .ok w := by
  rw [getPath_cons, bind_eq_ok]
  constructor
  · rintro ⟨x, hx, hw⟩
    cases v with
    | dict kvs =>
      rw [getItem_dict] at hx
      cases hlookup : Assoc.lookup k kvs with
      | none =>
        rw [hlookup] at hx
        cases hx
      | some x' =>
        rw [hlookup] at hx
        cases hx
        exact ⟨kvs, x, rfl, hlookup, hw⟩
    | none | bool | int | float | str | list => cases hx
  · rintro ⟨kvs, x, rfl, hlookup, hw⟩
    refine ⟨x, ?_, hw⟩
    rw [getItem_dict, hlookup]

/-- What `y` says of a path is found, if it is no object. -/
theorem getPath_combine_of_gives (hy : Keyed y) (hgives : getPath p y = .ok v)
    (hv : ∀ kvs, v ≠ .dict kvs) (x : Value) : getPath p (combine x y) = .ok v := by
  induction p generalizing x y with
  | nil =>
    cases hgives
    rw [combine_of_ne_dict hv]
    rfl
  | cons k ks ih =>
    obtain ⟨ys, y', rfl, hlookup, hrest⟩ := getPath_cons_eq_ok.1 hgives
    by_cases hx : ∃ xs, x = .dict xs
    · obtain ⟨xs, rfl⟩ := hx
      rw [combine_dict]
      refine getPath_cons_eq_ok.2
        ⟨_, _, rfl, lookup_combineItems_of_lookup hy.nodup hlookup xs, ?_⟩
      cases Assoc.lookup k xs with
      | none => exact hrest
      | some x' => exact ih (hy.of_mem (Assoc.mem_of_lookup hlookup)) hrest x'
    · rw [combine_of_ne_dict_left fun kvs heq => hx ⟨kvs, heq⟩]
      exact hgives

/-- What was found at a path of which `y` says nothing is found as before. -/
theorem getPath_combine_of_not_mentions (hy : Keyed y) (hnot : ¬ Mentions y p)
    (hx : getPath p x = .ok v) : getPath p (combine x y) = .ok v := by
  induction p generalizing x y with
  | nil => exact absurd (by cases y <;> trivial) hnot
  | cons k ks ih =>
    obtain ⟨xs, x', rfl, hlookup, hrest⟩ := getPath_cons_eq_ok.1 hx
    cases y with
    | dict ys =>
      rw [combine_dict]
      cases hys : Assoc.lookup k ys with
      | none =>
        refine getPath_cons_eq_ok.2 ⟨_, x', rfl, ?_, hrest⟩
        rw [lookup_combineItems_of_not_mem (Assoc.lookup_eq_none.1 hys), hlookup]
      | some y' =>
        refine getPath_cons_eq_ok.2
          ⟨_, _, rfl, lookup_combineItems_of_lookup hy.nodup hys xs, ?_⟩
        rw [hlookup]
        exact ih (hy.of_mem (Assoc.mem_of_lookup hys)) (fun hm => hnot ⟨y', hys, hm⟩) hrest
    | none | bool | int | float | str | list => exact absurd trivial hnot

end Py.Value
