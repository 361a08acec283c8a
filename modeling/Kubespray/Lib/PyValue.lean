import Kubespray.Lib.OrdDict
import Mathlib.Data.List.Forall2

/-!
# Python values and exceptions

The data a YAML or JSON loader hands to a Python program (`Value`) and the exceptions the
language raises on it (`Exc`). Item access, item assignment and the other operations are total
functions into `Except Exc`, with the exception class Python raises on an operand of the wrong
type. Nested assignments such as `d['a']['b'][k] = v` are `Value.update` at the path `['a', 'b']`;
`getPath_update_self` and `getPath_update_of_ne` say what such an assignment changes and what it
leaves alone. A value is a tree: two names for one mapping (YAML aliases) are two copies here.
`Value.pyEq` is `==`, which does not see the order of the keys.
-/

universe u v w

namespace Py

/-! ## Exceptions -/

/-- The exceptions of a run, with the text of those the program itself raises. `systemExit` is
`sys.exit(code)`. -/
inductive Exc where
  | keyError (key : String)
  | typeError
  | indexError
  | attributeError
  | unboundLocalError (name : String)
  | valueError (msg : String)
  | exception (msg : String)
  | osError
  /-- An exception of a library, by its class. -/
  | library (cls : String)
  | systemExit (code : Nat)
  deriving DecidableEq, Repr

section
variable {ε : Type u} {α β γ : Type v}

@[simp] theorem ok_bind (a : α) (f : α → Except ε β) : (Except.ok a >>= f) = f a := rfl
@[simp] theorem error_bind (e : ε) (f : α → Except ε β) :
    ((Except.error e : Except ε α) >>= f) = .error e := rfl
@[simp] theorem pure_eq_ok (a : α) : (pure a : Except ε α) = .ok a := rfl
@[simp] theorem throw_eq_error (e : ε) : (throw e : Except ε α) = .error e := rfl

/-- A sequence succeeds iff its first part does and the rest does on its result. -/
theorem bind_eq_ok {x : Except ε α} {f : α → Except ε β} {b : β} :
    (x >>= f) = .ok b ↔ ∃ a, x = .ok a ∧ f a = .ok b := by
  cases x with
  | error e => simp
  | ok a => simp

/-- A loop whose step simulates a pure step simulates the pure loop. -/
theorem foldlM_eq_ok_foldl {δ : Type w} {f : β → δ → Except ε β} {g : γ → δ → γ} {r : γ → β}
    {l : List δ} {c : γ} (h : ∀ c, ∀ a ∈ l, f (r c) a = .ok (r (g c a))) :
    l.foldlM f (r c) = .ok (r (l.foldl g c)) := by
  induction l generalizing c with
  | nil => rfl
  | cons a l ih =>
    rw [List.foldlM_cons, h c a (.head _), ok_bind, List.foldl_cons]
    exact ih fun c b hb => h c b (.tail _ hb)

/-- What every step of a successful loop keeps, the loop keeps. -/
theorem foldlM_invariant {δ : Type w} {f : β → δ → Except ε β} {P : β → Prop} {l : List δ}
    {b b' : β} (h : ∀ b b', ∀ a ∈ l, P b → f b a = .ok b' → P b') (hb : P b)
    (hl : l.foldlM f b = .ok b') : P b' := by
  induction l generalizing b with
  | nil => cases hl; exact hb
  | cons a l ih =>
    rw [List.foldlM_cons, bind_eq_ok] at hl
    obtain ⟨b₁, hs, hl⟩ := hl
    exact ih (fun b b' c hc => h b b' c (.tail _ hc)) (h b b₁ a (.head _) hb hs) hl

/-- When each step succeeds exactly on good elements, and keeps what this rests on, the loop
succeeds exactly on lists of good elements. -/
theorem foldlM_isOk_iff {δ : Type w} {f : β → δ → Except ε β} {P : β → Prop} {good : δ → Prop}
    {l : List δ} {b : β} (hok : ∀ b, ∀ a ∈ l, P b → ((∃ b', f b a = .ok b') ↔ good a))
    (hP : ∀ b b', ∀ a ∈ l, P b → f b a = .ok b' → P b') (hb : P b) :
    (∃ b', l.foldlM f b = .ok b') ↔ ∀ a ∈ l, good a := by
  induction l generalizing b with
  | nil => exact ⟨fun _ _ ha => absurd ha List.not_mem_nil, fun _ => ⟨b, rfl⟩⟩
  | cons a l ih =>
    have ih := fun {b} => ih (b := b) (fun b c hc => hok b c (.tail _ hc))
      fun b b' c hc => hP b b' c (.tail _ hc)
    simp only [List.foldlM_cons, bind_eq_ok, List.forall_mem_cons]
    constructor
    · rintro ⟨b', b₁, h₁, h⟩
      exact ⟨(hok b a (.head _) hb).1 ⟨b₁, h₁⟩, (ih (hP b b₁ a (.head _) hb h₁)).1 ⟨b', h⟩⟩
    · rintro ⟨ha, hl⟩
      obtain ⟨b₁, h₁⟩ := (hok b a (.head _) hb).2 ha
      obtain ⟨b', h⟩ := (ih (hP b b₁ a (.head _) hb h₁)).2 hl
      exact ⟨b', b₁, h₁, h⟩

/-- A successful loop over a concatenation is a loop over each part. -/
theorem foldlM_append_eq_ok {δ : Type w} {f : β → δ → Except ε β} {l m : List δ} {b b' : β} :
    (l ++ m).foldlM f b = .ok b' ↔ ∃ b₁, l.foldlM f b = .ok b₁ ∧ m.foldlM f b₁ = .ok b' := by
  rw [List.foldlM_append, bind_eq_ok]

/-- A list comprehension returns what its body returns, element for element. -/
theorem mapM_eq_ok_iff {δ : Type w} {f : δ → Except ε α} {l : List δ} {r : List α} :
    l.mapM f = .ok r ↔ List.Forall₂ (fun a b => f a = .ok b) l r := by
  induction l generalizing r with
  | nil => simp [eq_comm]
  | cons a l ih =>
    simp only [List.mapM_cons, bind_eq_ok, pure_eq_ok, Except.ok.injEq, List.forall₂_cons_left_iff,
      ih]
    constructor
    · rintro ⟨b, hb, r', hr, rfl⟩
      exact ⟨b, r', hb, hr, rfl⟩
    · rintro ⟨b, r', hb, hr, rfl⟩
      exact ⟨b, hb, r', hr, rfl⟩

/-- What a list comprehension returns, its body returned on some element. -/
theorem exists_of_mapM_eq_ok {δ : Type w} {f : δ → Except ε α} {l : List δ} {r : List α}
    (h : l.mapM f = .ok r) {b : α} (hb : b ∈ r) : ∃ a ∈ l, f a = .ok b := by
  induction l generalizing r with
  | nil =>
    cases h
    cases hb
  | cons a l ih =>
    rw [List.mapM_cons, bind_eq_ok] at h
    obtain ⟨b₁, h₁, h⟩ := h
    rw [bind_eq_ok] at h
    obtain ⟨r', hr, h⟩ := h
    cases h
    rcases List.mem_cons.1 hb with rfl | hb
    · exact ⟨a, .head _, h₁⟩
    · obtain ⟨a', ha', he⟩ := ih hr hb
      exact ⟨a', .tail _ ha', he⟩

/-- A list comprehension succeeds iff its body does on each element. -/
theorem mapM_isOk_iff {δ : Type w} {f : δ → Except ε α} {l : List δ} :
    (∃ r, l.mapM f = .ok r) ↔ ∀ a ∈ l, ∃ b, f a = .ok b := by
  induction l with
  | nil => exact ⟨fun _ _ ha => absurd ha List.not_mem_nil, fun _ => ⟨[], rfl⟩⟩
  | cons a l ih =>
    simp only [List.mapM_cons, bind_eq_ok, List.forall_mem_cons, ← ih]
    constructor
    · rintro ⟨r, b, hb, r', hr, -⟩
      exact ⟨⟨b, hb⟩, r', hr⟩
    · rintro ⟨⟨b, hb⟩, r', hr⟩
      exact ⟨b :: r', b, hb, r', hr, rfl⟩

/-- What a list comprehension returns has what its body does to each element. -/
theorem exists_mem_of_mapM_eq_ok {δ : Type w} {f : δ → Except ε α} {l : List δ} {r : List α}
    (h : l.mapM f = .ok r) {a : δ} (ha : a ∈ l) : ∃ b ∈ r, f a = .ok b := by
  induction l generalizing r with
  | nil => cases ha
  | cons a' l ih =>
    simp only [List.mapM_cons, bind_eq_ok] at h
    obtain ⟨b', hb', r', hr, h⟩ := h
    cases h
    rcases List.mem_cons.1 ha with rfl | ha
    · exact ⟨b', .head _, hb'⟩
    · obtain ⟨b, hb, he⟩ := ih hr ha
      exact ⟨b, .tail _ hb, he⟩

/-- A part that the body of a list comprehension keeps. -/
theorem map_of_mapM_eq_ok {β : Type u} {δ : Type w} {f : δ → Except ε α} {g : α → β} {g' : δ → β}
    {l : List δ} {r : List α} (hg : ∀ a b, f a = .ok b → g b = g' a) (h : l.mapM f = .ok r) :
    r.map g = l.map g' := by
  induction l generalizing r with
  | nil =>
    cases h
    rfl
  | cons a l ih =>
    simp only [List.mapM_cons, bind_eq_ok] at h
    obtain ⟨b, hb, r', hr, h⟩ := h
    cases h
    rw [List.map_cons, List.map_cons, hg a b hb, ih hr]

/-- A property of the part of a list that a successful loop has gone through, and of its state
there: if each element carries it on, it holds of the whole loop. -/
theorem foldlM_invariant_split {δ : Type w} {f : β → δ → Except ε β} {P : List δ → β → Prop}
    {l : List δ} {b b' : β}
    (h : ∀ pre a post b₁ b₂, l = pre ++ a :: post → pre.foldlM f b = .ok b₁ → P pre b₁ →
      f b₁ a = .ok b₂ → P (pre ++ [a]) b₂)
    (hb : P [] b) (hl : l.foldlM f b = .ok b') : P l b' := by
  have key : ∀ (m pre : List δ) (b₁ : β), l = pre ++ m → pre.foldlM f b = .ok b₁ → P pre b₁ →
      m.foldlM f b₁ = .ok b' → P l b' := by
    intro m
    induction m with
    | nil =>
      intro pre b₁ hpre _ hp hm
      cases hm
      rw [hpre, List.append_nil]
      exact hp
    | cons a m ih =>
      intro pre b₁ hpre hloop hp hm
      rw [List.foldlM_cons, bind_eq_ok] at hm
      obtain ⟨b₂, hs, hm⟩ := hm
      refine ih (pre ++ [a]) b₂ (by simp [hpre]) ?_ (h pre a m b₁ b₂ hpre hloop hp hs) hm
      rw [foldlM_append_eq_ok]
      exact ⟨b₁, hloop, by rw [List.foldlM_cons, hs]; rfl⟩
  exact key l [] b rfl rfl hb hl

end

/-! ## Values -/

/-- A value of `yaml.load` or `json.load`. A float is kept as its `repr`. -/
inductive Value where
  | none
  | bool (b : Bool)
  | int (n : Int)
  | float (repr : String)
  | str (s : String)
  | list (xs : List Value)
  | dict (kvs : List (String × Value))
  deriving Repr

namespace Value

/-- `v == s` for a string `s`. -/
def isStr (v : Value) (s : String) : Bool :=
  match v with
  | .str t => t == s
  | _ => false

@[simp] theorem isStr_iff {v : Value} {s : String} : v.isStr s = true ↔ v = .str s := by
  cases v <;> simp [isStr]

/-- `v is None`. -/
def isNone (v : Value) : Bool :=
  match v with
  | .none => true
  | _ => false

/-- The truth value of `if v`. -/
def truthy : Value → Bool
  | .none => false
  | .bool b => b
  | .int n => n != 0
  | .float r => r != "0.0" && r != "-0.0"
  | .str s => s != ""
  | .list xs => !xs.isEmpty
  | .dict kvs => !kvs.isEmpty

/-- `v[k]` for a string `k`. -/
def getItem : Value → String → Except Exc Value
  | .dict kvs, k =>
    match Assoc.lookup k kvs with
    | some v => .ok v
    | Option.none => .error (.keyError k)
  | _, _ => .error .typeError

/-- `v[k] = x` for a string `k`. -/
def setItem : Value → String → Value → Except Exc Value
  | .dict kvs, k, x => .ok (.dict (Assoc.insert k x kvs))
  | _, _, _ => .error .typeError

/-- `del v[k]` for a string `k`. -/
def delItem : Value → String → Except Exc Value
  | .dict kvs, k =>
    if k ∈ Assoc.keys kvs then .ok (.dict (Assoc.erase k kvs)) else .error (.keyError k)
  | _, _ => .error .typeError

/-- `k in v` for a string `k`: a key, an element or a substring. -/
def contains : Value → String → Except Exc Bool
  | .dict kvs, k => .ok (decide (k ∈ Assoc.keys kvs))
  | .list xs, k => .ok (xs.any (·.isStr k))
  | .str s, k => .ok (s.toList.tails.any (k.toList.isPrefixOf ·))
  | _, _ => .error .typeError

/-- `len(v)`. -/
def len : Value → Except Exc Nat
  | .dict kvs => .ok kvs.length
  | .list xs => .ok xs.length
  | .str s => .ok s.length
  | _ => .error .typeError

/-- `for k in v`, where the body uses `k` as a string: the keys of a mapping, the characters of a
string, the elements of a list of strings. -/
def iter : Value → Except Exc (List String)
  | .dict kvs => .ok (Assoc.keys kvs)
  | .str s => .ok (s.toList.map String.singleton)
  | .list xs => xs.mapM fun
    | .str s => .ok s
    | _ => .error .typeError
  | _ => .error .typeError

/-- `v.copy().keys()`. -/
def copyKeys : Value → Except Exc (List String)
  | .dict kvs => .ok (Assoc.keys kvs)
  | _ => .error .attributeError

/-- `v.items()`. -/
def items : Value → Except Exc (List (String × Value))
  | .dict kvs => .ok kvs
  | _ => .error .attributeError

/-- `v.get(k, default)` for a string `k`. -/
def get : Value → String → Value → Except Exc Value
  | .dict kvs, k, default => .ok ((Assoc.lookup k kvs).getD default)
  | _, _, _ => .error .attributeError

/-- `v[k]`, guarded by `if k in v`. -/
def getIfIn (v : Value) (k : String) : Except Exc (Option Value) := do
  if ← v.contains k then return some (← v.getItem k) else return Option.none

/-- `for x in v`. -/
def iterValues : Value → Except Exc (List Value)
  | .dict kvs => .ok ((Assoc.keys kvs).map .str)
  | .str s => .ok (s.toList.map fun c => .str (String.singleton c))
  | .list xs => .ok xs
  | _ => .error .typeError

/-- `v[-1]`. -/
def last : Value → Except Exc Value
  | .dict _ => .error (.keyError "-1")
  | .str s =>
    (s.toList.getLast?.map fun c => Value.str (String.singleton c)).elim (.error .indexError) .ok
  | .list xs => xs.getLast?.elim (.error .indexError) .ok
  | _ => .error .typeError

/-- `v[k₁]...[kₙ]`. -/
def getPath : List String → Value → Except Exc Value
  | [], v => .ok v
  | k :: ks, v => do getPath ks (← v.getItem k)

/-- The effect on `v` of changing the value at `v[k₁]...[kₙ]` by `f`. -/
def update : List String → (Value → Except Exc Value) → Value → Except Exc Value
  | [], f, v => f v
  | k :: ks, f, v => do v.setItem k (← update ks f (← v.getItem k))

@[simp] theorem getItem_dict (kvs : List (String × Value)) (k : String) :
    getItem (.dict kvs) k =
      match Assoc.lookup k kvs with
      | some v => .ok v
      | Option.none => .error (.keyError k) := rfl

@[simp] theorem setItem_dict (kvs : List (String × Value)) (k : String) (x : Value) :
    setItem (.dict kvs) k x = .ok (.dict (Assoc.insert k x kvs)) := rfl

/-- In a mapping the guarded access finds what is there. -/
@[simp] theorem getIfIn_dict (kvs : List (String × Value)) (k : String) :
    getIfIn (.dict kvs) k = .ok (Assoc.lookup k kvs) := by
  rw [getIfIn, contains, ok_bind]
  cases h : Assoc.lookup k kvs with
  | none => simp [Assoc.lookup_eq_none.1 h]
  | some v =>
    have hk : k ∈ Assoc.keys kvs := Assoc.lookup_isSome.1 (by rw [h]; rfl)
    simp [hk, h]

@[simp] theorem getPath_nil (v : Value) : getPath [] v = .ok v := rfl
@[simp] theorem getPath_cons (k : String) (ks : List String) (v : Value) :
    getPath (k :: ks) v = (v.getItem k >>= getPath ks) := rfl
@[simp] theorem update_nil (f : Value → Except Exc Value) (v : Value) : update [] f v = f v := rfl
@[simp] theorem update_cons (k : String) (ks : List String) (f : Value → Except Exc Value)
    (v : Value) :
    update (k :: ks) f v = (v.getItem k >>= fun c => update ks f c >>= v.setItem k) := rfl

/-- Only a mapping takes an item assignment. -/
theorem setItem_eq_ok {v w x : Value} {k : String} (h : v.setItem k x = .ok w) :
    ∃ kvs, v = .dict kvs ∧ w = .dict (Assoc.insert k x kvs) := by
  cases v <;> simp only [setItem, reduceCtorEq] at h
  exact ⟨_, rfl, by cases h; rfl⟩

/-- An assigned item is read back. -/
theorem getItem_setItem_self {v w x : Value} {k : String} (h : v.setItem k x = .ok w) :
    w.getItem k = .ok x := by
  obtain ⟨kvs, rfl, rfl⟩ := setItem_eq_ok h
  simp

/-- The items at other keys are read as before. -/
theorem getItem_setItem_of_ne {v w x : Value} {k k' : String} (hk : k ≠ k')
    (h : v.setItem k x = .ok w) : w.getItem k' = v.getItem k' := by
  obtain ⟨kvs, rfl, rfl⟩ := setItem_eq_ok h
  simp [Assoc.lookup_insert_of_ne hk]

/-- A nested assignment replaces the value at its path by the assigned one. -/
theorem getPath_update_self {ks : List String} {f : Value → Except Exc Value} {v w : Value}
    (h : update ks f v = .ok w) :
    ∃ c c', getPath ks v = .ok c ∧ f c = .ok c' ∧ getPath ks w = .ok c' := by
  induction ks generalizing v w with
  | nil => exact ⟨v, w, rfl, h, rfl⟩
  | cons k ks ih =>
    simp only [update_cons, bind_eq_ok] at h
    obtain ⟨c, hc, d, hd, hs⟩ := h
    obtain ⟨c₁, c₂, h₁, h₂, h₃⟩ := ih hd
    exact ⟨c₁, c₂, by simp [hc, h₁], h₂, by simp [getItem_setItem_self hs, h₃]⟩

/-- A nested assignment below `ks ++ [k]` leaves every path through another key alone. -/
theorem getPath_update_of_ne {k k' : String} (hk : k ≠ k') {ks ls ls' : List String}
    {f : Value → Except Exc Value} {v w : Value} (h : update (ks ++ k :: ls) f v = .ok w) :
    getPath (ks ++ k' :: ls') w = getPath (ks ++ k' :: ls') v := by
  induction ks generalizing v w with
  | nil =>
    simp only [List.nil_append, update_cons, bind_eq_ok] at h
    obtain ⟨c, hc, d, hd, hs⟩ := h
    simp [getItem_setItem_of_ne hk hs]
  | cons k₀ ks ih =>
    simp only [List.cons_append, update_cons, bind_eq_ok] at h
    obtain ⟨c, hc, d, hd, hs⟩ := h
    simp [getItem_setItem_self hs, hc, ih hd]

/-! ## Equality -/

mutual

/-- `v == w`, where `scalar` compares what is neither a list nor a mapping; values of two types can
be equal, such as `1` and `1.0`. Mappings are compared by their items, in any order. -/
def pyEq (scalar : Value → Value → Bool) : Value → Value → Bool
  | .list xs, .list ys => pyEqElements scalar xs ys
  | .list _, _ => false
  | .dict kvs, .dict kvs' => kvs.length == kvs'.length && pyEqItems scalar kvs kvs'
  | .dict _, _ => false
  | _, .list _ => false
  | _, .dict _ => false
  | v, w => scalar v w

/-- Two lists have equal elements. -/
def pyEqElements (scalar : Value → Value → Bool) : List Value → List Value → Bool
  | [], [] => true
  | x :: xs, y :: ys => pyEq scalar x y && pyEqElements scalar xs ys
  | _, _ => false

/-- Each of the items is one of the mapping `d`. -/
def pyEqItems (scalar : Value → Value → Bool) :
    List (String × Value) → List (String × Value) → Bool
  | [], _ => true
  | (k, v) :: kvs, d =>
    (match Assoc.lookup k d with
      | some w => pyEq scalar v w
      | Option.none => false) && pyEqItems scalar kvs d

end

end Value

/-! ## Texts and numbers -/

/-- The conversions between texts and numbers that are left open. -/
structure Format where
  /-- `repr` of a text, a list or a mapping. -/
  repr : Value → String
  /-- The integer part of a float, by its `repr`. -/
  trunc : String → Int
  /-- `int` of a text; `none` is its `ValueError`. -/
  intOfText : String → Option Int

/-- `str(v)`. -/
def Format.str (F : Format) : Value → String
  | .none => "None"
  | .bool b => if b then "True" else "False"
  | .int n => toString n
  | .float r => r
  | .str s => s
  | v => F.repr v

/-- `'%d' % v`. -/
def Format.decimal (F : Format) : Value → Except Exc String
  | .bool b => .ok (if b then "1" else "0")
  | .int n => .ok (toString n)
  | .float r => .ok (toString (F.trunc r))
  | _ => .error .typeError

/-- `int(v)`. -/
def Format.int (F : Format) : Value → Except Exc Int
  | .bool b => .ok (if b then 1 else 0)
  | .int n => .ok n
  | .float r => .ok (F.trunc r)
  | .str s => (F.intOfText s).elim (.error (.valueError "invalid literal for int()")) .ok
  | _ => .error .typeError

end Py
