import X301Provider.Field.Fe301
import X301Provider.Field.Reduction

/-!
# Field elements denoted by limbs

`Repr` relates a limb value to the element of `Fp` it stands for. Canonical
elements are below `p`, ladder values below `2p` and unreduced sums below `4p`;
every operation keeps its bound and computes the field operation.
-/

namespace X301Provider

open Limbs

/-- The canonical representative of an element. -/
def Fe301.Repr (x : Fe301) (v : Fp) : Prop := value x.limbs.1 = v.val

def Fe301.Canonical (x : Fe301) : Prop := value x.limbs.1 < P

/-- The element of the field a limb value is congruent to. -/
def Fe301.toFp (x : Fe301) : Fp := (value x.limbs.1 : Fp)

/-- A representative below `2p`. -/
def Fe301Lazy.Repr (x : Fe301Lazy) (v : Fp) : Prop :=
  value x.limbs.1 < 2 * P ∧ (value x.limbs.1 : Fp) = v

/-- A representative below `4p`. -/
def Fe301LazyLinear.Repr (x : Fe301LazyLinear) (v : Fp) : Prop :=
  value x.limbs.1 < 4 * P ∧ (value x.limbs.1 : Fp) = v

namespace Fe301

variable {x y : Fe301} {v w : Fp}

theorem Repr.lt (h : x.Repr v) : value x.limbs.1 < P := by
  rw [h]
  exact v.val_lt

theorem Repr.cast (h : x.Repr v) : (value x.limbs.1 : Fp) = v := by
  rw [h]
  exact ZMod.natCast_zmod_val v

theorem repr_of_cast (hLt : value x.limbs.1 < P) (hCast : (value x.limbs.1 : Fp) = v) :
    x.Repr v := by
  rw [Repr, ← hCast, ZMod.val_natCast, Nat.mod_eq_of_lt hLt]

theorem Canonical.repr (h : x.Canonical) : x.Repr x.toFp := repr_of_cast h rfl

theorem Repr.canonical_toFp (h : x.Repr v) : x.Canonical ∧ x.toFp = v := ⟨h.lt, h.cast⟩

theorem Repr.unique (hv : x.Repr v) (hw : x.Repr w) : v = w :=
  hv.cast.symm.trans hw.cast

theorem Repr.ext (hx : x.Repr v) (hy : y.Repr v) : x = y := by
  obtain ⟨xs⟩ := x
  obtain ⟨ys⟩ := y
  exact congrArg Fe301.mk (words_ext (hx.trans hy.symm))

theorem Repr.eq_iff (hx : x.Repr v) (hy : y.Repr w) : x = y ↔ v = w := by
  constructor
  · rintro rfl
    exact hx.unique hy
  · rintro rfl
    exact hx.ext hy

/-- One conditional subtraction canonicalizes a value below `2p`. -/
theorem repr_conditionalSubtract {input : Words 5} (hLt : value input.1 < 2 * P)
    (hCast : (value input.1 : Fp) = v) : Repr ⟨conditionalSubtractModulusCt input⟩ v := by
  have hValue := value_conditionalSubtractModulusCt input
  apply repr_of_cast
  · rw [hValue]
    split_ifs with h
    · exact h
    · omega
  · rw [hValue]
    split_ifs with h
    · exact hCast
    · rw [Nat.cast_sub (not_lt.mp h), hCast, ZMod.natCast_self, sub_zero]

theorem repr_zero : zero.Repr 0 := by
  apply repr_of_cast
  · exact prime_P.pos
  · exact Nat.cast_zero

theorem repr_one : one.Repr 1 := by
  apply repr_of_cast
  · exact prime_P.one_lt
  · exact Nat.cast_one

theorem repr_fromU64 (n : UInt64) : (fromU64 n).Repr (n.toNat : Fp) := by
  have hValue : value (fromU64 n).limbs.1 = n.toNat := by
    have hZero : (0 : UInt64).toNat = 0 := rfl
    simp [fromU64, hZero]
  have hWord := toNat_lt n
  have hBase : wordBase < P := P_numeric.2.1.2.1
  apply repr_of_cast
  · rw [hValue]
    exact hWord.trans hBase
  · rw [hValue]

theorem addLimbs_of_lt {left right : Words 5} (h : value left.1 + value right.1 < wordBase ^ 5) :
    (addLimbs left right).2 = 0 ∧
      value (addLimbs left right).1.1 = value left.1 + value right.1 :=
  carry_eq_zero (addLimbs_value left right) h

theorem value_addLimbs_of_lt {left right : Words 5}
    (h : value left.1 + value right.1 < wordBase ^ 5) :
    value (addLimbs left right).1.1 = value left.1 + value right.1 :=
  (addLimbs_of_lt h).2

theorem Repr.add (hx : x.Repr v) (hy : y.Repr w) : (x.add y).Repr (v + w) := by
  obtain ⟨-, -, hWords, -⟩ := P_bounds
  have hxLt := hx.lt
  have hyLt := hy.lt
  have hSum : value (addLimbs x.limbs y.limbs).1.1 = value x.limbs.1 + value y.limbs.1 :=
    value_addLimbs_of_lt (by omega)
  apply repr_conditionalSubtract
  · omega
  · rw [hSum, Nat.cast_add, hx.cast, hy.cast]

theorem Repr.sub (hx : x.Repr v) (hy : y.Repr w) : (x.sub y).Repr (v - w) := by
  obtain ⟨-, -, hWords, -⟩ := P_bounds
  have hxLt := hx.lt
  have hyLt := hy.lt
  obtain ⟨hLess, hGreater⟩ := subtractLimbsRuntime_spec x.limbs y.limbs
  cases lt_or_ge (value x.limbs.1) (value y.limbs.1) with
  | inl h =>
    obtain ⟨hBorrow, hDifference⟩ := hLess h
    have hLsb : lsb 1 = true := by decide
    have hSum := addLimbs_value (subtractLimbsRuntime x.limbs y.limbs).1 modulus
    have hLt := value_words_lt (addLimbs (subtractLimbsRuntime x.limbs y.limbs).1 modulus).1
    rw [value_modulus] at hSum
    have hCarry : (addLimbs (subtractLimbsRuntime x.limbs y.limbs).1 modulus).2.toNat = 1 := by
      generalize (addLimbs (subtractLimbsRuntime x.limbs y.limbs).1 modulus).2.toNat = carry at *
      have hUpper : carry < 2 := by
        by_contra hCarry
        have := Nat.mul_le_mul_left (wordBase ^ 5) (not_lt.mp hCarry)
        omega
      have hLower : carry ≠ 0 := by
        rintro rfl
        omega
      omega
    rw [hCarry] at hSum
    have hResult : (x.sub y).limbs =
        (addLimbs (subtractLimbsRuntime x.limbs y.limbs).1 modulus).1 := by
      simp only [Fe301.sub, hBorrow, hLsb, if_true]
    have hValue : value (x.sub y).limbs.1 + value y.limbs.1 = value x.limbs.1 + P := by
      rw [hResult]
      omega
    apply repr_of_cast
    · omega
    · have hCast := congrArg (Nat.cast (R := Fp)) hValue
      rw [Nat.cast_add, Nat.cast_add, ZMod.natCast_self, add_zero, hx.cast, hy.cast] at hCast
      exact eq_sub_of_add_eq hCast
  | inr h =>
    obtain ⟨hBorrow, hDifference⟩ := hGreater h
    have hLsb : lsb 0 = false := by decide
    have hResult : (x.sub y).limbs = (subtractLimbsRuntime x.limbs y.limbs).1 := by
      simp only [Fe301.sub, hBorrow, hLsb]
      rfl
    rw [← hResult] at hDifference
    apply repr_of_cast
    · omega
    · have hCast := congrArg (Nat.cast (R := Fp)) hDifference
      rw [Nat.cast_add, hx.cast, hy.cast] at hCast
      exact eq_sub_of_add_eq hCast

theorem Repr.neg (hx : x.Repr v) : x.neg.Repr (-v) := by
  rw [← zero_sub]
  exact repr_zero.sub hx

end Fe301

end X301Provider
