/-
  GroupeChat.Logging.Convert — the text of an integer in a log line (`convert`).

  The digits are written lowest first, each looked up in a table that has the nine digits
  both ways from its middle: `i % 10` has the sign of `i`, and the table gives -3 and 3 the
  same digit. So the most negative value needs no case of its own. The text is then
  reversed. Read as a decimal number it is the value (`read_convert`), and no value of a
  64-bit type has more than 20 characters (`convert_length`).
-/

import GroupeChat.Base.Decimal
import Mathlib.Algebra.Group.Nat.Defs
import Mathlib.Data.Int.Order.Basic
import Mathlib.Data.List.Basic

namespace GroupeChat.Logging

open Base

def digits : List UInt8 := [57, 56, 55, 54, 53, 52, 51, 50, 49, 48, 49, 50, 51, 52, 53, 54, 55, 56, 57]

def zero (lsd : Int) : UInt8 := digits.getD (9 + lsd).toNat 0

def convertDigits (i : Int) : List UInt8 :=
  zero (i.tmod 10) :: if i.tdiv 10 ≠ 0 then convertDigits (i.tdiv 10) else []
  termination_by i.natAbs
  decreasing_by
    have h : i ≠ 0 := by
      rintro rfl
      simp_all
    rw [Int.natAbs_tdiv]
    exact Nat.div_lt_self (Int.natAbs_pos.mpr h) (by decide)

/-- The text in front of the terminating 0. -/
def convert (value : Int) : List UInt8 :=
  (convertDigits value ++ if value < 0 then [45] else []).reverse

theorem zero_eq {d : Nat} (h : d < 10) : zero d = Decimal.digit d := by
  have hall : ∀ d < 10, zero (d : Nat) = Decimal.digit d := by decide
  exact hall d h

theorem zero_neg {d : Nat} (h : d < 10) : zero (-(d : Int)) = zero d := by
  have hall : ∀ d < 10, zero (-((d : Nat) : Int)) = zero (d : Nat) := by decide
  exact hall d h

/-- A number's digits are the lowest one and then those of the rest. -/
theorem convertDigits_nat (n : Nat) :
    convertDigits n = Decimal.digit (n % 10) :: if n / 10 ≠ 0 then convertDigits (n / 10 : Nat) else [] := by
  have hmod : (n : Int).tmod 10 = ((n % 10 : Nat) : Int) := rfl
  have hdiv : (n : Int).tdiv 10 = ((n / 10 : Nat) : Int) := rfl
  rw [convertDigits, hmod, hdiv, zero_eq (Nat.mod_lt _ (by decide))]
  simp only [ne_eq, Int.natCast_eq_zero]

theorem convertDigits_negNat (n : Nat) :
    convertDigits (-(n : Int)) =
      Decimal.digit (n % 10) :: if n / 10 ≠ 0 then convertDigits (-((n / 10 : Nat) : Int)) else [] := by
  have hlt : n % 10 < 10 := Nat.mod_lt _ (by decide)
  have hmod : (n : Int).tmod 10 = ((n % 10 : Nat) : Int) := rfl
  have hdiv : (n : Int).tdiv 10 = ((n / 10 : Nat) : Int) := rfl
  rw [convertDigits, Int.neg_tmod, Int.neg_tdiv, hmod, hdiv, zero_neg hlt, zero_eq hlt]
  simp only [ne_eq, Int.neg_eq_zero, Int.natCast_eq_zero]

/-- The sign of a number does not show in its digits. -/
theorem convertDigits_neg (n : Nat) : convertDigits (-(n : Int)) = convertDigits n := by
  induction n using Nat.strongRecOn with
  | ind n ih =>
    rw [convertDigits_nat, convertDigits_negNat]
    by_cases h0 : n / 10 = 0
    · simp only [h0, ne_eq, not_true, if_false]
    · rw [ih (n / 10) (Nat.div_lt_self (by omega) (by decide))]

theorem readNat_convertDigits (n : Nat) : Decimal.readNat (convertDigits n).reverse = some n := by
  induction n using Nat.strongRecOn with
  | ind n ih =>
    have hlt : n % 10 < 10 := Nat.mod_lt _ (by decide)
    rw [convertDigits_nat, List.reverse_cons, Decimal.readNat_append]
    by_cases h0 : n / 10 = 0
    · simp only [h0, ne_eq, not_true, if_false, List.reverse_nil]
      show Decimal.readDigit (some 0) _ = _
      rw [Decimal.readDigit_digit hlt]
      congr 1
      omega
    · simp only [h0, ne_eq, not_false_eq_true, if_true]
      rw [ih (n / 10) (Nat.div_lt_self (by omega) (by decide)), Decimal.readDigit_digit hlt]
      congr 1
      omega

theorem convertDigits_last (n : Nat) : ∃ d < 10, ∃ l, (convertDigits n).reverse = Decimal.digit d :: l := by
  induction n using Nat.strongRecOn with
  | ind n ih =>
    rw [convertDigits_nat]
    by_cases h0 : n / 10 = 0
    · exact ⟨n % 10, Nat.mod_lt _ (by decide), [], by simp [h0]⟩
    · obtain ⟨d, hd, l, hl⟩ := ih (n / 10) (Nat.div_lt_self (by omega) (by decide))
      refine ⟨d, hd, l ++ [Decimal.digit (n % 10)], ?_⟩
      rw [if_pos h0, List.reverse_cons, hl]
      rfl

theorem length_convertDigits {k n : Nat} (h : n < 10 ^ (k + 1)) : (convertDigits n).length ≤ k + 1 := by
  induction k generalizing n with
  | zero =>
    have h0 : n / 10 = 0 := by omega
    rw [convertDigits_nat]
    simp only [h0, ne_eq, not_true, if_false]
    exact Nat.le_refl 1
  | succ k ih =>
    rw [convertDigits_nat]
    by_cases h0 : n / 10 = 0
    · simp only [h0, ne_eq, not_true, if_false]
      exact Nat.le_add_left 1 (k + 1)
    · have hlt : n / 10 < 10 ^ (k + 1) := by
        rw [Nat.pow_succ] at h
        omega
      have hrest := ih hlt
      simp only [h0, ne_eq, not_false_eq_true, if_true, List.length_cons]
      omega

/-- What is written for an integer reads as that integer. -/
theorem read_convert (value : Int) : Decimal.read (convert value) = some value := by
  rcases Int.lt_or_le value 0 with hneg | hpos
  · obtain ⟨n, rfl⟩ : ∃ n : Nat, value = -(n : Int) := ⟨value.natAbs, by omega⟩
    obtain ⟨d, -, l, hl⟩ := convertDigits_last n
    have hne : (convertDigits n).reverse ≠ [] := by
      rw [hl]
      exact List.cons_ne_nil _ _
    rw [convert, if_pos hneg, List.reverse_append, convertDigits_neg]
    show Decimal.read (45 :: (convertDigits n).reverse) = _
    rw [Decimal.read_minus hne, readNat_convertDigits]
    rfl
  · obtain ⟨n, rfl⟩ := Int.eq_ofNat_of_zero_le hpos
    obtain ⟨d, hd, l, hl⟩ := convertDigits_last n
    rw [convert, if_neg (by omega), List.append_nil, hl, Decimal.read_of_digit hd, ← hl, readNat_convertDigits]
    rfl

/-- Values of a signed or an unsigned 64-bit type take no more than 20 characters. -/
theorem convert_length {value : Int} (h : -9223372036854775808 ≤ value) (h' : value < 18446744073709551616) :
    (convert value).length ≤ 20 := by
  rcases Int.lt_or_le value 0 with hneg | hpos
  · obtain ⟨n, rfl⟩ : ∃ n : Nat, value = -(n : Int) := ⟨value.natAbs, by omega⟩
    have hlen : (convertDigits n).length ≤ 19 := length_convertDigits (k := 18) (by omega)
    rw [convert, if_pos hneg, convertDigits_neg]
    simp
    omega
  · obtain ⟨n, rfl⟩ := Int.eq_ofNat_of_zero_le hpos
    have hlen : (convertDigits n).length ≤ 20 := length_convertDigits (k := 19) (by omega)
    rw [convert, if_neg (by omega)]
    simpa using hlen

end GroupeChat.Logging
