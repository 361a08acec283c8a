import Mathlib.Data.List.Basic

/-!
# Base64

The padded encoding of bytes by characters, six bits each, and the decoding of what it gives
(`Base64.decode_encode`). `Codec` is what a program that only stores and reads back encoded values
relies on.
-/

universe u v

/-- An encoding of values, and a decoding that inverts it. -/
structure Codec (α : Type u) (β : Type v) where
  /-- The encoding. -/
  encode : α → β
  /-- The decoding, which may fail. -/
  decode : β → Option α
  decode_encode : ∀ x, decode (encode x) = some x

namespace Base64

/-- The characters of the digits `0` to `63`. -/
def alphabet : List Char :=
  "ABCDEFGHIJKLMNOPQRSTUVWXYZabcdefghijklmnopqrstuvwxyz0123456789+/".toList

/-- The character of a digit. -/
def digit (n : Nat) : Char := alphabet.getD n 'A'

/-- The digit of a character. -/
def value (c : Char) : Option Nat := alphabet.findIdx? (· == c)

/-- The encoding, with `=` in place of the missing digits of the last group. -/
def encode : List UInt8 → List Char
  | [] => []
  | [a] => [digit (a.toNat / 4), digit (a.toNat % 4 * 16), '=', '=']
  | [a, b] =>
    [digit (a.toNat / 4), digit (a.toNat % 4 * 16 + b.toNat / 16), digit (b.toNat % 16 * 4), '=']
  | a :: b :: c :: rest =>
    digit (a.toNat / 4) :: digit (a.toNat % 4 * 16 + b.toNat / 16) ::
      digit (b.toNat % 16 * 4 + c.toNat / 64) :: digit (c.toNat % 64) :: encode rest

/-- The bytes of a group whose missing digits are `none`. -/
def group (w x : Nat) (y z : Option Nat) : List UInt8 :=
  match y, z with
  | none, _ => [.ofNat (w * 4 + x / 16)]
  | some y, none => [.ofNat (w * 4 + x / 16), .ofNat (x % 16 * 16 + y / 4)]
  | some y, some z =>
    [.ofNat (w * 4 + x / 16), .ofNat (x % 16 * 16 + y / 4), .ofNat (y % 4 * 64 + z)]

/-- The decoding. -/
def decode : List Char → Option (List UInt8)
  | [] => some []
  | w :: x :: y :: z :: rest => do
    let w ← value w
    let x ← value x
    if rest = [] ∧ z = '=' then
      if y = '=' then some (group w x none none) else do
        let y ← value y
        some (group w x (some y) none)
    else do
      let y ← value y
      let z ← value z
      let rest ← decode rest
      some (group w x (some y) (some z) ++ rest)
  | _ => none

theorem value_digit {n : Nat} (h : n < 64) : value (digit n) = some n := by
  have hall : ∀ n : Fin 64, value (digit n) = some n.val := by decide +kernel
  exact hall ⟨n, h⟩

theorem digit_ne_pad {n : Nat} (h : n < 64) : digit n ≠ '=' := by
  intro heq
  have hvalue := value_digit h
  rw [heq] at hvalue
  have hnone : value '=' = none := by decide
  rw [hnone] at hvalue
  cases hvalue

/-- A byte is known by its number. -/
theorem ofNat_eq {a : UInt8} {n : Nat} (h : n = a.toNat) : UInt8.ofNat n = a := by
  rw [h, UInt8.ofNat_toNat]

theorem group_one (a : UInt8) : group (a.toNat / 4) (a.toNat % 4 * 16) none none = [a] := by
  have ha := a.toNat_lt
  rw [group, ofNat_eq (a := a) (by omega)]

theorem group_two (a b : UInt8) :
    group (a.toNat / 4) (a.toNat % 4 * 16 + b.toNat / 16)
      (some (b.toNat % 16 * 4)) none = [a, b] := by
  have ha := a.toNat_lt
  have hb := b.toNat_lt
  rw [group, ofNat_eq (a := a) (by omega), ofNat_eq (a := b) (by omega)]

theorem group_three (a b c : UInt8) :
    group (a.toNat / 4) (a.toNat % 4 * 16 + b.toNat / 16) (some (b.toNat % 16 * 4 + c.toNat / 64))
      (some (c.toNat % 64)) = [a, b, c] := by
  have ha := a.toNat_lt
  have hb := b.toNat_lt
  have hc := c.toNat_lt
  rw [group, ofNat_eq (a := a) (by omega), ofNat_eq (a := b) (by omega),
    ofNat_eq (a := c) (by omega)]

/-- The decoding inverts the encoding. -/
theorem decode_encode (bytes : List UInt8) : decode (encode bytes) = some bytes := by
  induction bytes using encode.induct with
  | case1 => rfl
  | case2 a =>
    have ha := a.toNat_lt
    have hw := value_digit (n := a.toNat / 4) (by omega)
    have hx := value_digit (n := a.toNat % 4 * 16) (by omega)
    simp only [encode, decode, hw, hx, Option.bind_eq_bind, Option.bind_some, and_self, if_true,
      group_one]
  | case3 a b =>
    have ha := a.toNat_lt
    have hb := b.toNat_lt
    have hw := value_digit (n := a.toNat / 4) (by omega)
    have hx := value_digit (n := a.toNat % 4 * 16 + b.toNat / 16) (by omega)
    have hy := value_digit (n := b.toNat % 16 * 4) (by omega)
    have hpad := digit_ne_pad (n := b.toNat % 16 * 4) (by omega)
    simp only [encode, decode, hw, hx, hy, hpad, Option.bind_eq_bind, Option.bind_some, and_self,
      if_true, if_false, group_two]
  | case4 a b c rest ih =>
    have ha := a.toNat_lt
    have hb := b.toNat_lt
    have hc := c.toNat_lt
    have hw := value_digit (n := a.toNat / 4) (by omega)
    have hx := value_digit (n := a.toNat % 4 * 16 + b.toNat / 16) (by omega)
    have hy := value_digit (n := b.toNat % 16 * 4 + c.toNat / 64) (by omega)
    have hz := value_digit (n := c.toNat % 64) (by omega)
    have hpad := digit_ne_pad (n := c.toNat % 64) (by omega)
    simp only [encode, decode, hw, hx, hy, hz, hpad, ih, Option.bind_eq_bind, Option.bind_some,
      and_false, if_false, group_three, List.cons_append, List.nil_append]

/-- Base64 as an encoding of bytes. -/
def codec : Codec (List UInt8) (List Char) := ⟨encode, decode, decode_encode⟩

end Base64
