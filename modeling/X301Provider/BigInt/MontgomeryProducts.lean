import X301Provider.BigInt.MontyParams
import X301Provider.BigInt.WideReduction

/-!
# Montgomery products and repeated squares

A number in Montgomery form stands for the number it is a multiple of, times the radix. A
product of factors below the modulus is reduced by one subtraction, and so is a square that is
formed first and reduced then. Repeated squares skip it; what they leave stands for the power
but need not be reduced.
-/

namespace X301Provider.BigInt.MontyParams

open Limbs
open Observed (Ensures)

variable {n : ℕ} (params : MontyParams n)

/-- A Montgomery form of `z`, perhaps not reduced. -/
def Represents (form z : ℕ) : Prop := form ≡ z * wordBase ^ n [MOD params.m]

variable {params} {a b : Uint n} {form form' z w : ℕ}

theorem Represents.congr (h : params.Represents form z) (hMod : form' ≡ form [MOD params.m]) :
    params.Represents form' z := hMod.trans h

theorem represents_zero : params.Represents 0 0 := by
  rw [Represents, zero_mul]

theorem represents_one : params.Represents (value params.one.1) 1 := by
  rw [Represents, one_mul, params.one_eq]
  exact Nat.mod_modEq _ _

theorem Represents.add (h : params.Represents form z) (h' : params.Represents form' w) :
    params.Represents (form + form') (z + w) := by
  rw [Represents, add_mul]
  exact Nat.ModEq.add h h'

/-- What is left of a product stands for the product. -/
theorem Represents.product {total : ℕ} (h : params.Represents form z)
    (h' : params.Represents form' w)
    (hReduces : Montgomery.Reduces wordBase params.m n form form' total) :
    params.Represents total (z * w) := by
  have hMod := hReduces.modEq.trans (Nat.ModEq.mul h h')
  have hSquare : z * wordBase ^ n * (w * wordBase ^ n) =
      z * w * wordBase ^ n * wordBase ^ n := by ring
  rw [hSquare] at hMod
  exact hMod.cancel_right_of_coprime params.coprime

/-- Two reduced forms that stand for the same residue. -/
theorem Represents.inj (h : params.Represents form z) (h' : params.Represents form' z)
    (hForm : form < params.m) (hForm' : form' < params.m) : form = form' :=
  (Nat.ModEq.trans h h'.symm).eq_of_lt_of_lt hForm hForm'

section Products

theorem inner_spec (a b : Uint n) :
    Montgomery.Reduces wordBase params.m n (value a.1) (value b.1)
        (value (montgomeryMultiplyInner a b params.modulus.1 params.modNegInv).value.1.1 +
          wordBase ^ n *
            (montgomeryMultiplyInner a b params.modulus.1 params.modNegInv).value.2.toNat) ∧
      (montgomeryMultiplyInner a b params.modulus.1 params.modNegInv).value.2.toNat ≤ 1 :=
  (montgomeryMultiplyInner_ensures a b params.cancels).value_post

theorem value_trySub {out : Uint n} {carry : UInt64} (hCarry : carry.toNat ≤ 1)
    (hTotal : value out.1 + wordBase ^ n * carry.toNat < 2 * params.m) :
    value (out.trySubWithCarry carry params.modulus.1).1.1 =
      (value out.1 + wordBase ^ n * carry.toNat) % params.m :=
  Uint.trySubWithCarry_mod out params.modulus.1 hCarry hTotal

/-- A factor that is not reduced is allowed as long as the product is below the modulus times
the radix. -/
theorem value_mul (hProduct : value a.1 * value b.1 < params.m * wordBase ^ n) :
    value (params.mul a b).1 =
      (value (montgomeryMultiplyInner a b params.modulus.1 params.modNegInv).value.1.1 +
        wordBase ^ n *
          (montgomeryMultiplyInner a b params.modulus.1 params.modNegInv).value.2.toNat) %
        params.m := by
  obtain ⟨hReduces, hCarry⟩ := params.inner_spec a b
  exact value_trySub hCarry (hReduces.lt_two_mul hProduct)

theorem mul_lt (hProduct : value a.1 * value b.1 < params.m * wordBase ^ n) :
    value (params.mul a b).1 < params.m := by
  rw [value_mul hProduct]
  exact Nat.mod_lt _ params.pos

theorem mul_spec (hProduct : value a.1 * value b.1 < params.m * wordBase ^ n)
    (ha : params.Represents (value a.1) z) (hb : params.Represents (value b.1) w) :
    value (params.mul a b).1 < params.m ∧
      params.Represents (value (params.mul a b).1) (z * w) := by
  refine ⟨mul_lt hProduct, ?_⟩
  rw [value_mul hProduct]
  exact (ha.product hb (params.inner_spec a b).1).congr (Nat.mod_modEq _ _)

/-- For factors of any size: the wide sums are exact, the carry above the limbs is a bit, and the
one subtraction after it reduces whenever the product is below the modulus times the radix. -/
theorem montgomeryMultiplyInner_exact (a b : Uint n) :
    Ensures WordReport.Exact
        (montgomeryMultiplyInner a b params.modulus.1 params.modNegInv) (fun result =>
      (value result.1.1 + wordBase ^ n * result.2.toNat) * wordBase ^ n ≡
          value a.1 * value b.1 [MOD params.m] ∧
        value result.1.1 + wordBase ^ n * result.2.toNat < value b.1 + params.m ∧
        result.2.toNat ≤ 1) ∧
      (value a.1 * value b.1 < params.m * wordBase ^ n →
        value (params.mul a b).1 < params.m ∧
          value (params.mul a b).1 * wordBase ^ n ≡ value a.1 * value b.1 [MOD params.m]) := by
  constructor
  · refine (montgomeryMultiplyInner_ensures a b params.cancels).mono ?_
    rintro result ⟨hReduces, hCarry⟩
    exact ⟨hReduces.modEq, hReduces.lt_add (value_words_lt a) params.pos, hCarry⟩
  · intro hProduct
    refine ⟨mul_lt hProduct, ?_⟩
    rw [value_mul hProduct]
    exact ((Nat.mod_modEq _ _).mul_right _).trans (params.inner_spec a b).1.modEq

theorem product_lt (ha : value a.1 < params.m) :
    value a.1 * value b.1 < params.m * wordBase ^ n :=
  Nat.mul_lt_mul'' ha (value_words_lt b)

end Products

section Squares

/-- Both ways to square leave the same multiple of the modulus to one subtraction. -/
theorem value_squareMontgomeryForm (ha : value a.1 < params.m) :
    ∃ total, Montgomery.Reduces wordBase params.m n (value a.1) (value a.1) total ∧
      value (squareMontgomeryForm a params.modulus.1 params.modNegInv).1 = total % params.m := by
  rw [squareMontgomeryForm]
  split_ifs with hFour
  · have hWide := (Schoolbook.squareWide_ensures (by omega) a).value_post
    obtain ⟨hReduces, hCarry⟩ := (montgomeryReductionInner_ensures params.cancels
      (Schoolbook.squareWide (by omega) a).value).value_post
    rw [hWide, sq] at hReduces
    have hProduct := hReduces.of_product
    exact ⟨_, hProduct, value_trySub hCarry (hProduct.lt_two_mul (product_lt ha))⟩
  · obtain ⟨hReduces, hCarry⟩ := params.inner_spec a a
    exact ⟨_, hReduces, value_trySub hCarry (hReduces.lt_two_mul (product_lt ha))⟩

theorem squareMontgomeryForm_spec (ha : value a.1 < params.m)
    (hForm : params.Represents (value a.1) z) :
    value (squareMontgomeryForm a params.modulus.1 params.modNegInv).1 < params.m ∧
      params.Represents (value (squareMontgomeryForm a params.modulus.1 params.modNegInv).1)
        (z ^ 2) := by
  obtain ⟨total, hReduces, hValue⟩ := value_squareMontgomeryForm ha
  rw [hValue, sq]
  exact ⟨Nat.mod_lt _ params.pos, (hForm.product hForm hReduces).congr (Nat.mod_modEq _ _)⟩

/-- A square of any integer of the size, with its carry. -/
theorem square_lt {total : ℕ}
    (hReduces : Montgomery.Reduces wordBase params.m n (value a.1) (value a.1) total) :
    total < params.m + wordBase ^ n := by
  have hLt := hReduces.lt_add (value_words_lt a) params.pos
  have hWords := value_words_lt a
  omega

/-- The subtraction between two squares. -/
theorem conditional_modEq {out : Uint n} {carry : UInt64} (hCarry : carry.toNat ≤ 1)
    (hTotal : value out.1 + wordBase ^ n * carry.toNat < params.m + wordBase ^ n) :
    value (out.conditionalBorrowingSub params.modulus.1 (carry != 0)).1.1 ≡
      value out.1 + wordBase ^ n * carry.toNat [MOD params.m] := by
  have hBit : (carry != 0).toNat = carry.toNat := by
    cases Nat.le_one_iff_eq_zero_or_eq_one.mp hCarry with
    | inl h =>
      obtain rfl : carry = 0 := UInt64.toNat_inj.mp h
      rfl
    | inr h =>
      obtain rfl : carry = 1 := UInt64.toNat_inj.mp h
      rfl
  have hSome : (carry != 0) = true → value out.1 < value params.modulus.1.1 := by
    intro hSome
    rw [hSome, Bool.toNat_true] at hBit
    rw [← hBit, mul_one] at hTotal
    change _ < params.m
    omega
  have hValue := Uint.conditionalBorrowingSub_value out params.modulus.1 hSome
  rw [hBit] at hValue
  rw [← hValue]
  split_ifs
  · exact (Nat.add_mod_right _ _).symm
  · rfl

/-- The rounds of a repeated square; the last one leaves a carry. -/
theorem squareRounds_spec (count : ℕ) (hForm : params.Represents (value a.1) z) :
    value (squareRounds params.modulus.1 params.modNegInv count a).1.1 +
        wordBase ^ n * (squareRounds params.modulus.1 params.modNegInv count a).2.toNat <
        params.m + wordBase ^ n ∧
      (squareRounds params.modulus.1 params.modNegInv count a).2.toNat ≤ 1 ∧
      params.Represents (value (squareRounds params.modulus.1 params.modNegInv count a).1.1 +
        wordBase ^ n * (squareRounds params.modulus.1 params.modNegInv count a).2.toNat)
          (z ^ 2 ^ (count + 1)) := by
  induction count generalizing a z with
  | zero =>
    obtain ⟨hReduces, hCarry⟩ := params.inner_spec a a
    have hSquare := hForm.product hForm hReduces
    rw [← sq] at hSquare
    exact ⟨square_lt hReduces, hCarry, hSquare⟩
  | succ count ih =>
    obtain ⟨hReduces, hCarry⟩ := params.inner_spec a a
    have hMod := conditional_modEq hCarry (square_lt hReduces)
    have hNext := ih ((hForm.product hForm hReduces).congr hMod)
    have hPower : (z * z) ^ 2 ^ (count + 1) = z ^ 2 ^ (count + 1 + 1) := by
      rw [← sq, ← pow_mul, ← pow_succ']
    rw [hPower] at hNext
    exact hNext

/-- A subtraction after repeated squares takes the carry away, if not all of the multiples. -/
theorem trySub_modEq {out : Uint n} {carry : UInt64} (hCarry : carry.toNat ≤ 1)
    (hTotal : value out.1 + wordBase ^ n * carry.toNat < params.m + wordBase ^ n) :
    value (out.trySubWithCarry carry params.modulus.1).1.1 ≡
        value out.1 + wordBase ^ n * carry.toNat [MOD params.m] ∧
      (out.trySubWithCarry carry params.modulus.1).2 = 0 := by
  obtain ⟨hValue, hNoCarry⟩ := Uint.trySubWithCarry_exact out params.modulus.1 hCarry hTotal
  refine ⟨?_, hNoCarry⟩
  change _ = (if _ < params.m then _ else _ - params.m) at hValue
  rw [hValue]
  split_ifs with hLess
  · rfl
  · exact (Nat.mod_eq_sub_mod (Nat.le_of_not_lt hLess)).symm

theorem trySub_twice_modEq {out : Uint n} {carry : UInt64} (hCarry : carry.toNat ≤ 1)
    (hTotal : value out.1 + wordBase ^ n * carry.toNat < params.m + wordBase ^ n) :
    value ((out.trySubWithCarry carry params.modulus.1).1.trySubWithCarry
        (out.trySubWithCarry carry params.modulus.1).2 params.modulus.1).1.1 ≡
      value out.1 + wordBase ^ n * carry.toNat [MOD params.m] := by
  obtain ⟨hFirst, hNoCarry⟩ := trySub_modEq hCarry hTotal
  have hZero : (0 : UInt64).toNat = 0 := rfl
  have hWords := value_words_lt (out.trySubWithCarry carry params.modulus.1).1
  have hSecond := (@trySub_modEq _ params (out.trySubWithCarry carry params.modulus.1).1 0
    (Nat.zero_le 1) (by
      rw [hZero, mul_zero, add_zero]
      omega)).1
  rw [hZero, mul_zero, add_zero, ← hNoCarry] at hSecond
  exact hSecond.trans hFirst

/-- A repeated square stands for the power, reduced or not. -/
theorem squareRepeatMontgomeryForm_represents (ha : value a.1 < params.m)
    (hForm : params.Represents (value a.1) z) (count : ℕ) :
    params.Represents
      (value (squareRepeatMontgomeryForm a count params.modulus.1 params.modNegInv).1)
      (z ^ 2 ^ count) := by
  cases count with
  | zero =>
    rw [pow_zero, pow_one]
    exact hForm
  | succ count =>
    cases count with
    | zero =>
      rw [zero_add, pow_one]
      exact (squareMontgomeryForm_spec ha hForm).2
    | succ count =>
      obtain ⟨hTotal, hCarry, hPower⟩ := squareRounds_spec (count + 1) hForm
      exact hPower.congr (trySub_twice_modEq hCarry hTotal)

end Squares

end X301Provider.BigInt.MontyParams
