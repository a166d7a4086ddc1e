import Mathlib.FieldTheory.Finite.Basic
import X301Provider.Field.Codec
import X301Provider.Library.Horner

/-!
# Fixed-window powers, inversion by Fermat and square roots of ratios

The window loop reads the public exponent four bits at a time from the top. With
`p = 3 mod 4`, one power gives a square root of a ratio whenever there is one.
-/

namespace X301Provider

open Limbs

theorem value_div_wordBase_pow (words : List UInt64) (i : ℕ) :
    value words / wordBase ^ i % wordBase = (words.getD i 0).toNat := by
  induction words generalizing i with
  | nil => simp
  | cons word words ih =>
    have hWord := toNat_lt word
    cases i with
    | zero =>
      rw [pow_zero, Nat.div_one, value_cons, Nat.add_mul_mod_self_left, Nat.mod_eq_of_lt hWord]
      rfl
    | succ i =>
      rw [pow_succ', ← Nat.div_div_eq_div_mul, value_cons,
        Nat.add_mul_div_left _ _ wordBase_pos, Nat.div_eq_of_lt hWord, zero_add, ih]
      rfl

namespace Fe301

theorem windowDigit_eq (exponent : Words 5) (window : ℕ) :
    windowDigit exponent window = value exponent.1 / 16 ^ window % 16 := by
  have hShift : window >>> 4 = window / 16 := Nat.shiftRight_eq_div_pow window 4
  have hMask : window &&& 15 = window % 16 := Nat.and_two_pow_sub_one_eq_mod window 4
  have hFifteen : (15 : UInt64).toNat = 2 ^ 4 - 1 := rfl
  have hBit : (window % 16) <<< 2 = 4 * (window % 16) := by rw [Nat.shiftLeft_eq, mul_comm]
  have hLess : 4 * (window % 16) < 64 := by omega
  rw [windowDigit, hShift, hMask, hBit, UInt64.toNat_and, hFifteen,
    Nat.and_two_pow_sub_one_eq_mod, shiftRight_toNat _ hLess, ← value_div_wordBase_pow]
  have hPower : (16 : ℕ) ^ window = wordBase ^ (window / 16) * 2 ^ (4 * (window % 16)) := by
    have hSixteen : (16 : ℕ) = 2 ^ 4 := rfl
    rw [wordBase, ← pow_mul, ← pow_add, hSixteen, ← pow_mul]
    congr 1
    omega
  have hWord : wordBase = 2 ^ (4 * (window % 16)) * 2 ^ (64 - 4 * (window % 16)) := by
    rw [wordBase, ← pow_add]
    congr 1
    omega
  rw [hPower, ← Nat.div_div_eq_div_mul]
  generalize value exponent.1 / wordBase ^ (window / 16) = rest
  have hSplit : 2 ^ (64 - 4 * (window % 16)) = 2 ^ 4 * 2 ^ (60 - 4 * (window % 16)) := by
    rw [← pow_add]
    congr 1
    omega
  rw [hWord, Nat.mod_mul_right_div_self, hSplit, Nat.mod_mul_right_mod]
  rfl

section Windows

variable {mul : Fe301 → Fe301 → Fe301} {square : Fe301 → Fe301}
  (hMul : ∀ {x y : Fe301} {v w : Fp}, x.Repr v → y.Repr w → (mul x y).Repr (v * w))
  (hSquare : ∀ {x : Fe301} {v : Fp}, x.Repr v → (square x).Repr (v ^ 2))
  {x : Fe301} {v : Fp}

include hMul in
theorem windowPower_repr (hx : x.Repr v) (n : ℕ) : (windowPower mul x n).Repr (v ^ n) := by
  induction n with
  | zero =>
    rw [pow_zero]
    exact repr_one
  | succ n ih =>
    rw [pow_succ]
    exact hMul ih hx

include hMul hSquare in
theorem powStep_repr (hx : x.Repr v) (exponent : Words 5) {result : Fe301} {e window : ℕ}
    (hResult : result.Repr (v ^ e)) :
    (powStep mul square x exponent result window).Repr
      (v ^ (16 * e + value exponent.1 / 16 ^ window % 16)) := by
  have hRaised := hSquare (hSquare (hSquare (hSquare hResult)))
  have hPower : ((((v ^ e) ^ 2) ^ 2) ^ 2) ^ 2 = v ^ (16 * e) := by
    simp only [← pow_mul]
    congr 1
    ring
  rw [hPower] at hRaised
  rw [← windowDigit_eq]
  simp only [powStep]
  split_ifs with hDigit
  · rw [pow_add]
    exact hMul hRaised (windowPower_repr hMul hx _)
  · rw [not_not.mp hDigit, add_zero]
    exact hRaised

include hMul hSquare in
theorem powWindows_repr (hx : x.Repr v) (exponent : Words 5) (bits : ℕ) :
    (powWindows mul square x exponent bits).Repr
      (v ^ (value exponent.1 % 16 ^ ((bits + 3) / 4))) := by
  have hStart : one.Repr (v ^ 0) := by
    rw [pow_zero]
    exact repr_one
  have hRun := Horner.run (R := fun (result : Fe301) e => result.Repr (v ^ e))
    (V := value exponent.1) ((bits + 3) / 4)
    (fun _ _ _ _ hResult => powStep_repr hMul hSquare hx exponent hResult) hStart
  rwa [mul_zero, zero_add] at hRun

end Windows

variable {x y : Fe301} {v w : Fp}

theorem Repr.powFixedWindow4_mod (hx : x.Repr v) (exponent : Words 5) (bits : ℕ) :
    (x.powFixedWindow4 exponent bits).Repr (v ^ (value exponent.1 % 16 ^ ((bits + 3) / 4))) :=
  powWindows_repr (fun hx hy => hx.mul hy) (fun hx => hx.square) hx exponent bits

theorem Repr.powFixedWindow4Const_mod (hx : x.Repr v) (exponent : Words 5) (bits : ℕ) :
    (x.powFixedWindow4Const exponent bits).Repr
      (v ^ (value exponent.1 % 16 ^ ((bits + 3) / 4))) :=
  powWindows_repr (fun hx hy => by rw [mulConst_eq]; exact hx.mul hy)
    (fun hx => by rw [squareConst_eq]; exact hx.square) hx exponent bits

theorem Repr.powFixedWindow4 (hx : x.Repr v) (exponent : Words 5) (bits : ℕ)
    (hBits : value exponent.1 < 16 ^ ((bits + 3) / 4)) :
    (x.powFixedWindow4 exponent bits).Repr (v ^ value exponent.1) := by
  have hPower := hx.powFixedWindow4_mod exponent bits
  rwa [Nat.mod_eq_of_lt hBits] at hPower

theorem Repr.powFixedWindow4Const (hx : x.Repr v) (exponent : Words 5) (bits : ℕ)
    (hBits : value exponent.1 < 16 ^ ((bits + 3) / 4)) :
    (x.powFixedWindow4Const exponent bits).Repr (v ^ value exponent.1) := by
  have hPower := hx.powFixedWindow4Const_mod exponent bits
  rwa [Nat.mod_eq_of_lt hBits] at hPower

theorem value_exponents :
    value inversionExponent.1 = P - 2 ∧ value sqrtRatioExponent.1 = (P - 3) / 4 := by
  decide +kernel

theorem pow_pred_eq_inv (hv : v ≠ 0) : v ^ (P - 2) = v⁻¹ := by
  apply eq_inv_of_mul_eq_one_left
  have hFermat := ZMod.pow_card_sub_one_eq_one hv
  have hExponent : P - 2 + 1 = P - 1 := P_numeric.2.2.1
  rw [← pow_succ, hExponent, hFermat]

theorem Repr.invertConstNonzero (hx : x.Repr v) (hv : v ≠ 0) :
    x.invertConstNonzero.Repr v⁻¹ := by
  have hBits : value inversionExponent.1 < 16 ^ ((301 + 3) / 4) := by
    rw [value_exponents.1]
    exact P_numeric.2.2.2.2.2.1
  rw [← pow_pred_eq_inv hv, ← value_exponents.1]
  exact hx.powFixedWindow4Const inversionExponent 301 hBits

/-- If `n / d` has a square root, the fixed power of `n * d` yields one. -/
theorem ratio_root {n d r : Fp} (hd : d ≠ 0) (hr : r ^ 2 * d = n) :
    (n * (n * d) ^ ((P - 3) / 4)) ^ 2 * d = n := by
  by_cases hn : n = 0
  · rw [hn]
    ring
  · have hr₀ : r ≠ 0 := by
      rintro rfl
      exact hn (by rw [← hr]; ring)
    have hProduct : n * d = (r * d) ^ 2 := by
      rw [← hr]
      ring
    have hExponent : 2 * ((P - 3) / 4) * 2 = P - 3 := P_numeric.2.2.2.2.1
    have hFermat := ZMod.pow_card_sub_one_eq_one (mul_ne_zero hr₀ hd)
    have hSplit : P - 1 = P - 3 + 2 := P_numeric.2.2.2.1
    rw [hSplit, pow_add] at hFermat
    rw [hProduct, ← pow_mul, mul_pow, ← pow_mul, hExponent]
    calc n ^ 2 * (r * d) ^ (P - 3) * d
        = n * ((r * d) ^ (P - 3) * (r * d) ^ 2) := by rw [← hr]; ring
      _ = n := by rw [hFermat, mul_one]

/-- The single candidate `n * (n * d) ^ ((p - 3) / 4)` for a root of `n / d`. -/
def ratioCandidate (n d : Fp) : Fp := n * (n * d) ^ ((P - 3) / 4)

theorem sqrtRatio_repr (hx : x.Repr v) (hy : y.Repr w) :
    (sqrtRatio x y).value.Repr (ratioCandidate v w) := by
  have hBits : value sqrtRatioExponent.1 < 16 ^ ((299 + 3) / 4) := by
    rw [value_exponents.2]
    exact P_numeric.2.2.2.2.2.2
  have hPower := (hx.mul hy).powFixedWindow4 sqrtRatioExponent 299 hBits
  rw [value_exponents.2] at hPower
  exact hx.mul hPower

theorem sqrtRatio_isSome (hx : x.Repr v) (hy : y.Repr w) :
    (sqrtRatio x y).isSome = (decide (ratioCandidate v w ^ 2 * w = v) && !decide (w = 0)) := by
  rw [← ((sqrtRatio_repr hx hy).square.mul hy).ctEq hx, ← hy.isZero]
  rfl

theorem ratioCandidate_check (n d : Fp) :
    (decide (ratioCandidate n d ^ 2 * d = n) && !decide (d = 0)) =
      decide (d ≠ 0 ∧ ∃ r, r ^ 2 * d = n) := by
  rw [Bool.eq_iff_iff, Bool.and_eq_true, Bool.not_eq_true', decide_eq_true_eq,
    decide_eq_false_iff_not, decide_eq_true_eq]
  constructor
  · rintro ⟨hRoot, hd⟩
    exact ⟨hd, _, hRoot⟩
  · rintro ⟨hd, r, hr⟩
    exact ⟨ratio_root hd hr, hd⟩

/-- The verified root: present exactly when the ratio is a square over a nonzero denominator. -/
theorem sqrtRatio_spec (hx : x.Repr v) (hy : y.Repr w) :
    (sqrtRatio x y).isSome = decide (w ≠ 0 ∧ ∃ r, r ^ 2 * w = v) ∧
      ∃ r, (sqrtRatio x y).value.Repr r ∧ ((sqrtRatio x y).isSome = true → r ^ 2 * w = v) := by
  have hIsSome := sqrtRatio_isSome hx hy
  refine ⟨hIsSome.trans (ratioCandidate_check v w), _, sqrtRatio_repr hx hy, ?_⟩
  intro hSome
  rw [hIsSome, Bool.and_eq_true, decide_eq_true_eq] at hSome
  exact hSome.1

end Fe301

end X301Provider
