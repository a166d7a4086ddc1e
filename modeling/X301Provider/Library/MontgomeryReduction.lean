import Mathlib.Data.Nat.GCD.Basic
import Mathlib.Data.Nat.ModEq
import Mathlib.Tactic.Linarith
import Mathlib.Tactic.LinearCombination
import Mathlib.Tactic.Ring

/-!
# Montgomery products digit by digit

A product is divided by a power of the base without leaving the integers: one digit of the
left factor at a time is multiplied in, and a multiple of the modulus makes the lowest digit
zero. What is left stands for the product divided by the power, up to one multiple of the
modulus.
-/

namespace Montgomery

variable {base modulus negInv count X Y acc : ℕ}

/-- The factor is `-1 / modulus` for the base. -/
def Cancels (base modulus negInv : ℕ) : Prop := base ∣ negInv * modulus + 1

theorem Cancels.dvd (h : Cancels base modulus negInv) (t : ℕ) :
    base ∣ t + t * negInv % base * modulus := by
  have hMod : t * negInv % base * modulus ≡ t * negInv * modulus [MOD base] :=
    (Nat.mod_modEq _ _).mul_right modulus
  have hZero : t * (negInv * modulus + 1) ≡ 0 [MOD base] :=
    Nat.modEq_zero_iff_dvd.mpr (h.mul_left t)
  apply Nat.modEq_zero_iff_dvd.mp
  calc
    t + t * negInv % base * modulus ≡ t + t * negInv * modulus [MOD base] := hMod.add_left t
    _ = t * (negInv * modulus + 1) := by ring
    _ ≡ 0 [MOD base] := hZero

/-- What is left of the product of the low digits of `X` with `Y`, after as many exact
divisions by the base. -/
def Reduces (base modulus count X Y acc : ℕ) : Prop :=
  ∃ U < base ^ count, acc * base ^ count = X * Y + U * modulus

theorem reduces_zero (base modulus Y : ℕ) : Reduces base modulus 0 0 Y 0 :=
  ⟨0, by simp, by simp⟩

/-- A number that is only to be reduced, with all its digits in it from the start. -/
theorem reduces_start (base modulus X : ℕ) : Reduces base modulus 0 X 1 X :=
  ⟨0, by simp, by simp⟩

/-- The next digit of `X` and the digit that cancels. -/
theorem Reduces.step (h : Reduces base modulus count X Y acc) {digit quotient next : ℕ}
    (hQuotient : quotient < base)
    (hNext : base * next = acc + digit * Y + quotient * modulus) :
    Reduces base modulus (count + 1) (X + base ^ count * digit) Y next := by
  obtain ⟨U, hU, hAcc⟩ := h
  refine ⟨U + base ^ count * quotient, ?_, ?_⟩
  · have hLast : base ^ count * (quotient + 1) ≤ base ^ count * base :=
      Nat.mul_le_mul_left _ hQuotient
    rw [pow_succ]
    linarith
  · rw [pow_succ]
    linear_combination base ^ count * hNext + hAcc

/-- The next digit that cancels, with none to add. -/
theorem Reduces.cancel (h : Reduces base modulus count X Y acc) {quotient next : ℕ}
    (hQuotient : quotient < base) (hNext : base * next = acc + quotient * modulus) :
    Reduces base modulus (count + 1) X Y next := by
  have hStep := @Reduces.step _ _ _ _ _ _ h 0 _ _ hQuotient (by rw [hNext, zero_mul, add_zero])
  rwa [mul_zero, add_zero] at hStep

/-- A product that is formed first and reduced then. -/
theorem Reduces.of_product (h : Reduces base modulus count (X * Y) 1 acc) :
    Reduces base modulus count X Y acc := by
  rwa [Reduces, mul_one] at h

theorem Reduces.modEq (h : Reduces base modulus count X Y acc) :
    acc * base ^ count ≡ X * Y [MOD modulus] := by
  obtain ⟨U, -, hAcc⟩ := h
  rw [hAcc, Nat.ModEq, Nat.add_mul_mod_self_right]

/-- Without any bound on the factors but their width. -/
theorem Reduces.lt_add (h : Reduces base modulus count X Y acc) (hX : X < base ^ count)
    (hModulus : 0 < modulus) : acc < Y + modulus := by
  obtain ⟨U, hU, hAcc⟩ := h
  have hFirst : X * Y ≤ base ^ count * Y := Nat.mul_le_mul_right Y hX.le
  have hSecond : U * modulus < base ^ count * modulus := Nat.mul_lt_mul_of_pos_right hU hModulus
  apply Nat.lt_of_mul_lt_mul_right (a := base ^ count)
  rw [hAcc, mul_comm (Y + modulus), mul_add]
  omega

/-- When the product is below the modulus times the power, one subtraction is left. -/
theorem Reduces.lt_two_mul (h : Reduces base modulus count X Y acc)
    (hProduct : X * Y < modulus * base ^ count) : acc < 2 * modulus := by
  obtain ⟨U, hU, hAcc⟩ := h
  have hMultiple : U * modulus ≤ base ^ count * modulus := Nat.mul_le_mul_right modulus hU.le
  apply Nat.lt_of_mul_lt_mul_right (a := base ^ count)
  rw [hAcc, two_mul, add_mul, mul_comm (base ^ count)] at *
  omega

/-- Dividing a reduced number leaves a reduced number. -/
theorem Reduces.lt_of_one (h : Reduces base modulus count X 1 acc) (hX : X < modulus) :
    acc < modulus := by
  obtain ⟨U, hU, hAcc⟩ := h
  have hMultiple : (U + 1) * modulus ≤ base ^ count * modulus := Nat.mul_le_mul_right modulus hU
  apply Nat.lt_of_mul_lt_mul_right (a := base ^ count)
  rw [hAcc, mul_one, mul_comm modulus]
  linarith

end Montgomery
