import Mathlib.Data.ZMod.Basic
import X301Provider.BigInt.MontgomeryRows

/-!
# The parameters of an odd modulus

The inverse modulo a word by steps that double the number of correct bits, and the two
residues of the radix.
-/

namespace X301Provider.BigInt

open Limbs

section InvertOdd

/-- A word as a residue; wrapping operations are those of the residues. -/
def residue (word : UInt64) : ZMod wordBase := word.toNat

theorem residue_mul (a b : UInt64) : residue (a * b) = residue a * residue b := by
  rw [residue, UInt64.toNat_mul, ← wordBase, ZMod.natCast_mod, Nat.cast_mul]
  rfl

theorem residue_add (a b : UInt64) : residue (a + b) = residue a + residue b := by
  rw [residue, UInt64.toNat_add, ← wordBase, ZMod.natCast_mod, Nat.cast_add]
  rfl

theorem residue_sub (a b : UInt64) : residue (a - b) = residue a - residue b := by
  rw [eq_sub_iff_add_eq, ← residue_add, UInt64.sub_add_cancel]

theorem residue_one : residue 1 = 1 := Nat.cast_one

/-- The first guess is right in its five lowest bits. -/
theorem dvd_first_error {value : UInt64} (hOdd : value.toNat % 2 = 1) :
    32 ∣ (1 - (value * 3 ^^^ 2) * value).toNat := by
  have hBits : ∀ r < 32, r % 2 = 1 → (r * 3 % 32 ^^^ 2) * r % 32 = 1 := by decide
  have hThree : (3 : UInt64).toNat = 3 := rfl
  have hTwo : (2 : UInt64).toNat = 2 := rfl
  have hOne : (1 : UInt64).toNat = 1 := rfl
  have hProduct : ((value * 3 ^^^ 2) * value).toNat % 32 = 1 := by
    have hGuess : (value * 3 ^^^ 2).toNat % 32 = value.toNat % 32 * 3 % 32 ^^^ 2 := by
      have hXor : ((value * 3).toNat ^^^ 2) % 2 ^ 5 = (value * 3).toNat % 2 ^ 5 ^^^ 2 % 2 ^ 5 :=
        Nat.xor_mod_two_pow
      have hTriple : (value * 3).toNat % 2 ^ 5 = value.toNat % 32 * 3 % 32 := by
        rw [UInt64.toNat_mul, hThree]
        omega
      rw [UInt64.toNat_xor, hTwo]
      rw [hTriple] at hXor
      exact hXor
    have hWrap : ((value * 3 ^^^ 2) * value).toNat % 32 =
        (value * 3 ^^^ 2).toNat * value.toNat % 32 := by
      rw [UInt64.toNat_mul, Nat.mod_mod_of_dvd _ (by decide)]
    rw [hWrap, Nat.mul_mod, hGuess]
    exact hBits (value.toNat % 32) (Nat.mod_lt _ (by decide)) (by omega)
  have hLt := ((value * 3 ^^^ 2) * value).toNat_lt
  rw [UInt64.toNat_sub, hOne]
  omega

/-- The inverse is exact: each step squares the error, which starts at a multiple of 32. -/
theorem u64InvertOdd_spec {value : UInt64} (hOdd : value.toNat % 2 = 1) :
    (u64InvertOdd value).toNat * value.toNat % wordBase = 1 := by
  obtain ⟨q, hq⟩ := dvd_first_error hOdd
  have hError : (1 : ZMod wordBase) - residue (value * 3 ^^^ 2) * residue value = 32 * q := by
    rw [← residue_one, ← residue_mul, ← residue_sub, residue, hq]
    push_cast
    rfl
  have hPower : (32 : ZMod wordBase) ^ 16 = 0 := by
    have hCast : ((32 ^ 16 : ℕ) : ZMod wordBase) = 0 :=
      (ZMod.natCast_eq_zero_iff _ _).mpr (by decide)
    rwa [Nat.cast_pow] at hCast
  have hProduct : residue (u64InvertOdd value) * residue value = 1 := by
    simp only [u64InvertOdd, residue_mul, residue_add, residue_sub, residue_one]
    generalize residue (value * 3 ^^^ 2) = x at *
    calc
      _ = 1 - (1 - x * residue value) ^ 16 := by ring
      _ = 1 := by rw [hError, mul_pow, hPower, zero_mul, sub_zero]
  have hNat : (((u64InvertOdd value).toNat * value.toNat : ℕ) : ZMod wordBase) = (1 : ℕ) := by
    rw [Nat.cast_mul, Nat.cast_one]
    exact hProduct
  exact (ZMod.natCast_eq_natCast_iff _ _ _).mp hNat

end InvertOdd

section Residues

variable {n : ℕ}

theorem value_ofNat (n integer : ℕ) : value (Uint.ofNat n integer).1 = integer % wordBase ^ n :=
  value_leWords n integer

theorem value_ofNat_mod (integer : ℕ) {modulus : Uint n} (hPos : 0 < value modulus.1) :
    value (Uint.ofNat n (integer % value modulus.1)).1 = integer % value modulus.1 := by
  rw [value_ofNat, Nat.mod_eq_of_lt ((Nat.mod_lt _ hPos).trans (value_words_lt modulus))]

theorem value_max : value (Uint.max : Uint n).1 + 1 = wordBase ^ n := by
  induction n with
  | zero => rfl
  | succ n ih =>
    have hSplit : value (Uint.max : Uint (n + 1)).1 =
        (0xffffffffffffffff : UInt64).toNat + wordBase * value (Uint.max : Uint n).1 := rfl
    have hWord : (0xffffffffffffffff : UInt64).toNat + 1 = wordBase := rfl
    rw [hSplit, pow_succ, ← ih]
    linarith

/-- One more than the remainder of `R - 1`, brought below the modulus. -/
theorem value_montyOne {modulus : Uint n} (hPos : 0 < value modulus.1) :
    value (montyOne modulus).1 = wordBase ^ n % value modulus.1 := by
  have hRem : value (Uint.max.remVartime modulus).1 = value (Uint.max : Uint n).1 % value modulus.1 :=
    value_ofNat_mod _ hPos
  have hLt := Nat.mod_lt (value (Uint.max : Uint n).1) hPos
  have hModulus := value_words_lt modulus
  have hNext : (wordBase ^ n) % value modulus.1 =
      (value (Uint.max : Uint n).1 % value modulus.1 + 1) % value modulus.1 := by
    rw [← value_max, Nat.mod_add_mod]
  have hAdd : value ((Uint.max.remVartime modulus).wrappingAdd (.ofNat n 1)).1 =
      value (Uint.max : Uint n).1 % value modulus.1 + 1 := by
    have hSum := Uint.carryingAdd_value (Uint.max.remVartime modulus) (.ofNat n 1) 0
    have hOut := value_words_lt ((Uint.max.remVartime modulus).carryingAdd (.ofNat n 1) 0).1
    have hOne : value (Uint.ofNat n 1).1 = 1 := by
      rw [value_ofNat, Nat.mod_eq_of_lt (by omega)]
    have hZero : (0 : UInt64).toNat = 0 := rfl
    rw [hRem, hOne, hZero] at hSum
    exact wrapped_eq hOut (by omega) (hSum.trans (by rw [mul_zero]))
  have hSelect : montyOne modulus =
      if Uint.eq ((Uint.max.remVartime modulus).wrappingAdd (.ofNat n 1)) modulus then .zero
      else (Uint.max.remVartime modulus).wrappingAdd (.ofNat n 1) := rfl
  rw [hNext, hSelect]
  by_cases hEq : Uint.eq ((Uint.max.remVartime modulus).wrappingAdd (.ofNat n 1)) modulus = true
  · have hSame : value ((Uint.max.remVartime modulus).wrappingAdd (.ofNat n 1)).1 =
        value modulus.1 :=
      congrArg (fun x : Uint n => value x.1) ((Uint.eq_iff _ _).mp hEq)
    rw [hAdd] at hSame
    rw [if_pos hEq, hSame, Nat.mod_self, Uint.value_zero]
  · have hLess : value (Uint.max : Uint n).1 % value modulus.1 + 1 < value modulus.1 := by
      apply lt_of_le_of_ne hLt
      intro hSame
      rw [← hAdd] at hSame
      exact hEq ((Uint.eq_iff _ _).mpr (words_ext hSame))
    rw [if_neg hEq, hAdd, Nat.mod_eq_of_lt hLess]

/-- `FixedMontyParams::new_vartime`. -/
def MontyParams.newVartime (modulus : OddUint n) : MontyParams n where
  modulus := modulus
  one := montyOne modulus.1
  r2 := (montyOne modulus.1).squareModVartime modulus.1
  modInv := u64InvertOdd modulus.1.lowestU64
  one_eq := value_montyOne (by have := modulus.2; omega)
  r2_eq := by
    have hPos : 0 < value modulus.1.1 := by
      have hOdd := modulus.2
      omega
    rw [Uint.squareModVartime, value_ofNat_mod _ hPos, value_montyOne hPos, ← Nat.mul_mod]
  modInv_eq := by
    obtain ⟨⟨words, hLength⟩, hOdd⟩ := modulus
    cases words with
    | nil => cases hOdd
    | cons word words =>
      have hLow : word.toNat % 2 = 1 := by
        rw [value_cons, wordBase_eq] at hOdd
        omega
      change (u64InvertOdd word).toNat * (word.toNat + wordBase * value words) % wordBase = 1
      rw [mul_add, mul_left_comm, Nat.add_mul_mod_self_left]
      exact u64InvertOdd_spec hLow

/-- The lowest limb of an odd integer of any size gives its inverse modulo a word. -/
theorem invertModU64_exact (modulus : OddUint n) :
    (u64InvertOdd modulus.1.lowestU64).toNat * value modulus.1.1 % wordBase = 1 :=
  (MontyParams.newVartime modulus).modInv_eq

namespace MontyParams

variable (params : MontyParams n)

/-- The modulus as a number. -/
def m : ℕ := value params.modulus.1.1

theorem pos : 0 < params.m := by
  have hOdd := params.modulus.2
  unfold m
  omega

theorem coprime : params.m.Coprime (wordBase ^ n) := by
  have hOdd : Odd params.m := Nat.odd_iff.mpr params.modulus.2
  exact ((Nat.coprime_two_right.mpr hOdd).pow_right 64).pow_right n

theorem cancels : Montgomery.Cancels wordBase params.m params.modNegInv.toNat := by
  have hInverse : residue params.modInv * (params.m : ZMod wordBase) = 1 := by
    have hMod : params.modInv.toNat * params.m ≡ 1 [MOD wordBase] := params.modInv_eq
    have hCast := (ZMod.natCast_eq_natCast_iff _ _ _).mpr hMod
    rwa [Nat.cast_mul, Nat.cast_one] at hCast
  have hZero : residue 0 = 0 := Nat.cast_zero
  rw [Montgomery.Cancels, ← ZMod.natCast_eq_zero_iff, Nat.cast_add, Nat.cast_mul, Nat.cast_one]
  change residue params.modNegInv * _ + 1 = 0
  rw [modNegInv, residue_sub, hZero, zero_sub, neg_mul, hInverse, neg_add_cancel]

end MontyParams

end Residues

end X301Provider.BigInt
