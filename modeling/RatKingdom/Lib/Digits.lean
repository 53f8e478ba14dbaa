/-
Numbers written with a fixed number of digits.

`digits base digit width n` writes `n` in `width` digits, the most significant first.  With
digits that grow with what they stand for, texts of one width compare as the numbers behind
them (`digits_lt_iff`), and `value` reads a text back (`value_digits`).
-/
import Mathlib.Algebra.Group.Nat.Defs
import Mathlib.Data.List.Basic
import Mathlib.Order.Basic

namespace RatKingdom.Lib

universe u

section
variable {α : Type u} (base : Nat) (digit : Nat → α)

def digits : Nat → Nat → List α
  | 0, _ => []
  | width + 1, n => digit (n / base ^ width) :: digits width (n % base ^ width)

/-- The number a text of digits stands for, each digit read by `read`. -/
def value (read : α → Option Nat) : List α → Option Nat
  | [] => some 0
  | c :: cs => (read c).bind fun d => (value read cs).map fun rest => d * base ^ cs.length + rest

end

section
variable {α : Type u} {base : Nat} {digit : Nat → α}

@[simp] theorem length_digits (width n : Nat) : (digits base digit width n).length = width := by
  induction width generalizing n with
  | zero => rfl
  | succ width ih => simp [digits, ih]

theorem top_digit_lt {width n : Nat} (hn : n < base ^ (width + 1)) : n / base ^ width < base := by
  apply Nat.div_lt_of_lt_mul
  rw [Nat.pow_succ] at hn
  exact hn

theorem rest_lt {width n : Nat} (hn : n < base ^ (width + 1)) :
    n % base ^ width < base ^ width := by
  apply Nat.mod_lt
  rcases Nat.eq_zero_or_pos base with h | h
  · rw [h, Nat.zero_pow (Nat.succ_pos width)] at hn
    exact absurd hn (Nat.not_lt_zero n)
  · exact Nat.pow_pos h

/-- A reader that undoes `digit` below the base undoes `digits`. -/
theorem value_digits {read : α → Option Nat} (hread : ∀ d, d < base → read (digit d) = some d)
    {width n : Nat} (hn : n < base ^ width) : value base read (digits base digit width n) = some n := by
  induction width generalizing n with
  | zero =>
    have : n = 0 := by simpa using hn
    subst this
    rfl
  | succ width ih =>
    have htop := hread _ (top_digit_lt hn)
    have hrest := ih (rest_lt hn)
    have hdiv := Nat.div_add_mod n (base ^ width)
    simp only [digits, value, htop, hrest, Option.bind_some, Option.map_some, length_digits,
      Option.some.injEq]
    rw [Nat.mul_comm]
    exact hdiv

variable [Preorder α]

theorem digits_lt_iff (hdigit : ∀ a b, a < b → b < base → digit a < digit b) {width m n : Nat}
    (hm : m < base ^ width) (hn : n < base ^ width) :
    digits base digit width m < digits base digit width n ↔ m < n := by
  induction width generalizing m n with
  | zero =>
    have hm0 : m = 0 := by simpa using hm
    have hn0 : n = 0 := by simpa using hn
    simp [digits, hm0, hn0]
  | succ width ih =>
    have hm' := top_digit_lt hm
    have hn' := top_digit_lt hn
    have hrest := ih (rest_lt hm) (rest_lt hn)
    have hmdiv := Nat.div_add_mod m (base ^ width)
    have hndiv := Nat.div_add_mod n (base ^ width)
    have hmlt := rest_lt hm
    have hnlt := rest_lt hn
    have hmpos := Nat.zero_le (m % base ^ width)
    have hnpos := Nat.zero_le (n % base ^ width)
    simp only [digits, List.cons_lt_cons_iff, hrest]
    rcases Nat.lt_trichotomy (m / base ^ width) (n / base ^ width) with h | h | h
    · have hlt := hdigit _ _ h hn'
      have hmul : base ^ width * (m / base ^ width + 1) ≤ base ^ width * (n / base ^ width) :=
        Nat.mul_le_mul_left _ h
      rw [Nat.mul_add] at hmul
      simp only [hlt, true_or, true_iff]
      omega
    · rw [h] at hmdiv ⊢
      simp only [lt_irrefl, true_and, false_or]
      omega
    · have hlt := hdigit _ _ h hm'
      have hmul : base ^ width * (n / base ^ width + 1) ≤ base ^ width * (m / base ^ width) :=
        Nat.mul_le_mul_left _ h
      rw [Nat.mul_add] at hmul
      simp only [not_lt_of_gt hlt, ne_of_gt hlt, false_and, false_or, false_iff]
      omega

end

end RatKingdom.Lib
