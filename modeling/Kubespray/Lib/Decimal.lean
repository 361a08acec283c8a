import Mathlib.Algebra.Group.Nat.Defs
import Mathlib.Data.List.Lex
import Mathlib.Data.Nat.Basic

/-!
# Numbers with leading zeros

Numbers that are written with a fixed number of decimal digits are ordered as their texts
(`digits_lt`), and so are sequences of such numbers between fixed texts (`render_lt`): a date is
before another one iff its text is.
-/

universe u

namespace Decimal

/-- Of two lists with different beginnings of one length the beginnings decide. -/
theorem append_lt_append {α : Type u} [LT α] {a b c d : List α}
    (hlen : a.length = b.length) (h : a < b) : a ++ c < b ++ d := by
  induction a generalizing b with
  | nil =>
    rw [List.length_nil, eq_comm, List.length_eq_zero_iff] at hlen
    subst hlen
    exact absurd h (List.not_lt_nil _)
  | cons x a ih =>
    cases b with
    | nil => cases hlen
    | cons y b =>
      rw [List.cons_append, List.cons_append, List.cons_lt_cons_iff]
      rcases List.cons_lt_cons_iff.1 h with hxy | ⟨heq, hab⟩
      · exact .inl hxy
      · exact .inr ⟨heq, ih (Nat.succ.inj hlen) hab⟩

/-- The last `w` decimal digits of a number. -/
def digits : Nat → Nat → List Char
  | 0, _ => []
  | w + 1, n => digits w (n / 10) ++ [Nat.digitChar (n % 10)]

@[simp] theorem length_digits (w n : Nat) : (digits w n).length = w := by
  induction w generalizing n with
  | zero => rfl
  | succ w ih => rw [digits, List.length_append, ih, List.length_singleton]

theorem digitChar_lt {m n : Nat} (h : m < n) (hn : n < 10) :
    Nat.digitChar m < Nat.digitChar n := by
  have hall : ∀ n < 10, ∀ m < n, Nat.digitChar m < Nat.digitChar n := by decide
  exact hall n hn m h

/-- Numbers with `w` digits at most are ordered as their texts of `w` digits. -/
theorem digits_lt {w m n : Nat} (h : m < n) (hn : n < 10 ^ w) : digits w m < digits w n := by
  induction w generalizing m n with
  | zero => omega
  | succ w ih =>
    rw [digits, digits]
    by_cases hdiv : m / 10 < n / 10
    · refine append_lt_append ((length_digits _ _).trans (length_digits _ _).symm) (ih hdiv ?_)
      rw [Nat.pow_succ] at hn
      omega
    · have heq : m / 10 = n / 10 := by omega
      rw [heq]
      refine List.append_left_lt (List.cons_lt_cons_iff.2 (.inl (digitChar_lt ?_ ?_))) <;> omega

/-- Numbers of these widths, each after a text. -/
def render : List (List Char × Nat) → List Nat → List Char
  | (sep, w) :: ws, n :: ns => sep ++ digits w n ++ render ws ns
  | _, _ => []

/-- Sequences of numbers are ordered as their texts. -/
theorem render_lt {ws : List (List Char × Nat)} {ms ns : List Nat}
    (hms : ms.length = ws.length) (hns : List.Forall₂ (fun n w => n < 10 ^ w.2) ns ws)
    (h : ms < ns) : render ws ms < render ws ns := by
  induction hns generalizing ms with
  | nil =>
    rw [List.length_nil, List.length_eq_zero_iff] at hms
    subst hms
    exact absurd h (List.not_lt_nil _)
  | @cons n w ns ws hn _ ih =>
    cases ms with
    | nil => cases hms
    | cons m ms =>
      rw [render, render, List.append_assoc, List.append_assoc]
      refine List.append_left_lt ?_
      rcases List.cons_lt_cons_iff.1 h with hlt | ⟨rfl, hlt⟩
      · exact append_lt_append ((length_digits _ _).trans (length_digits _ _).symm)
          (digits_lt hlt hn)
      · exact List.append_left_lt (ih (Nat.succ.inj hms) hlt)

end Decimal
