import X301Provider.Field.Fe301Spec

/-!
# Products, ladder representatives and the compile-time twins

Products of values below `4p` reduce below `2p`. The compile-time operations
return the same words as the runtime ones on canonical elements.
-/

namespace X301Provider

open Limbs

theorem value_multiplyWide (left right : Words 5) :
    value (multiplyWide left right).1 = value left.1 * value right.1 := by
  have hRows := @value_mulRows left.1 right.1 (List.replicate 5 0)
    (by rw [List.length_replicate, right.2])
  rwa [value_replicate_zero, add_zero] at hRows

theorem value_squareWide (x : Words 5) : value (squareWide x).1 = value x.1 * value x.1 := by
  have hSquare := (@squareRows_spec x.1 (by
    intro hNil
    have hLength := x.2
    rw [hNil] at hLength
    cases hLength)).2
  rwa [sq] at hSquare

theorem squareWide_eq (x : Words 5) : squareWide x = multiplyWide x x :=
  words_ext ((value_squareWide x).trans (value_multiplyWide x x).symm)

theorem columnSum_scale (words : List UInt64) (m : ℕ) :
    columnSum (words.map fun v => v.toNat * m) = value words * m := by
  induction words with
  | nil => exact (Nat.zero_mul m).symm
  | cons word words ih =>
    rw [List.map_cons, columnSum_cons, ih, value_cons]
    ring

theorem value_multiplyFiveByU32 (x : Words 5) (m : UInt32) :
    value (multiplyFiveByU32 x m).1 = value x.1 * m.toNat := by
  have hFits : ∀ column ∈ x.1.map fun v => v.toNat * m.toNat, Fits column := by
    intro column hColumn
    obtain ⟨word, _, rfl⟩ := List.mem_map.mp hColumn
    have hWord : word.toNat ≤ wordBase - 1 := Nat.le_pred_of_lt (toNat_lt word)
    have hm : m.toNat ≤ 2 ^ 32 - 1 := Nat.le_pred_of_lt m.toNat_lt
    have hProduct := Nat.mul_le_mul hWord hm
    simp only [Fits, wordBase_eq] at *
    omega
  have hChain := carryChain_value _ hFits 0
  have hZero : (0 : UInt64).toNat = 0 := rfl
  rw [columnSum_scale, hZero, add_zero, List.length_map, x.2] at hChain
  rw [← hChain, multiplyFiveByU32, value_append, carryChain_length, List.length_map, x.2,
    value_cons, value_nil, mul_zero, add_zero]

theorem reduceWideUnreduced_mul {x y : Words 5} (hx : value x.1 < 4 * P)
    (hy : value y.1 < 4 * P) :
    value (reduceWideUnreduced (multiplyWide x y)).1 < 2 * P ∧
      (value (reduceWideUnreduced (multiplyWide x y)).1 : Fp) = value x.1 * value y.1 := by
  obtain ⟨hBound, hWide, -⟩ := P_bounds
  have hProduct : value (multiplyWide x y).1 < 2 ^ 606 := by
    rw [value_multiplyWide]
    have hMul := Nat.mul_lt_mul'' hx hy
    have hRegroup : 4 * P * (4 * P) = 16 * (P * P) := by ring
    omega
  obtain ⟨hLt, hMod⟩ := value_reduceWideUnreduced _ hProduct
  refine ⟨hLt.trans hBound, ?_⟩
  rw [(ZMod.natCast_eq_natCast_iff _ _ P).mpr hMod, value_multiplyWide, Nat.cast_mul]

theorem multiplyFiveByU32_lt {x : Words 5} (hx : value x.1 < 4 * P) (m : UInt32) :
    value (multiplyFiveByU32 x m).1 < 2 ^ 335 := by
  obtain ⟨-, -, -, hSmall, -⟩ := P_bounds
  rw [value_multiplyFiveByU32]
  exact (Nat.mul_lt_mul'' hx m.toNat_lt).trans hSmall

theorem reduceSmall_mul {x : Words 5} (hx : value x.1 < 4 * P) (m : UInt32) :
    value (reduceSmallProductUnreduced (multiplyFiveByU32 x m)).1 < 2 * P ∧
      (value (reduceSmallProductUnreduced (multiplyFiveByU32 x m)).1 : Fp) =
        value x.1 * m.toNat := by
  obtain ⟨hBound, -⟩ := P_bounds
  obtain ⟨hLt, hMod⟩ := value_reduceSmallProductUnreduced _ (multiplyFiveByU32_lt hx m)
  refine ⟨hLt.trans hBound, ?_⟩
  rw [(ZMod.natCast_eq_natCast_iff _ _ P).mpr hMod, value_multiplyFiveByU32, Nat.cast_mul]

namespace Fe301

variable {x y : Fe301} {v w : Fp}

theorem Repr.mul (hx : x.Repr v) (hy : y.Repr w) : (x.mul y).Repr (v * w) := by
  have hxLt := hx.lt
  have hyLt := hy.lt
  obtain ⟨hLt, hCast⟩ := @reduceWideUnreduced_mul x.limbs y.limbs (by omega) (by omega)
  rw [hx.cast, hy.cast] at hCast
  exact repr_conditionalSubtract hLt hCast

theorem Repr.mulSmall (hx : x.Repr v) (m : UInt32) : (x.mulSmall m).Repr (v * m.toNat) := by
  have hxLt := hx.lt
  obtain ⟨hLt, hCast⟩ := @reduceSmall_mul x.limbs (by omega) m
  rw [hx.cast] at hCast
  exact repr_conditionalSubtract hLt hCast

theorem square_eq_mul (x : Fe301) : x.square = x.mul x := by
  rw [Fe301.square, Fe301.mul, squareWide_eq]

theorem Repr.square (hx : x.Repr v) : x.square.Repr (v ^ 2) := by
  rw [square_eq_mul, sq]
  exact hx.mul hx

theorem addConst_eq (x y : Fe301) : x.addConst y = x.add y := by
  rw [addConst, Fe301.add, conditionalSubtractModulusConst_eq]

theorem mulConst_eq (x y : Fe301) : x.mulConst y = x.mul y := by
  rw [mulConst, Fe301.mul, reduceWideConst, reduceWide, conditionalSubtractModulusConst_eq]

theorem squareConst_eq (x : Fe301) : x.squareConst = x.square := by
  rw [squareConst, Fe301.square, reduceWideConst, reduceWide, conditionalSubtractModulusConst_eq]

/-- Masking the modulus with the borrow adds it back exactly when the words wrapped. -/
theorem subConst_eq (x y : Fe301) : x.subConst y = x.sub y := by
  obtain ⟨hLess, hGreater⟩ := subtractLimbsRuntime_spec x.limbs y.limbs
  simp only [subConst, Fe301.sub, subtractLimbs_eq_runtime]
  cases lt_or_ge (value x.limbs.1) (value y.limbs.1) with
  | inl h =>
    have hMask : (modulus.map (· &&& (0 - 1 : UInt64)) : Words 5) = modulus := by decide
    have hLsb : lsb 1 = true := by decide
    rw [(hLess h).1, hMask, hLsb, if_pos rfl]
  | inr h =>
    have hMask : value (modulus.map (· &&& (0 - 0 : UInt64)) : Words 5).1 = 0 := by decide
    have hLsb : lsb 0 = false := by decide
    rw [(hGreater h).1, hLsb]
    refine congrArg Fe301.mk (words_ext ?_)
    have hSum : value (addLimbs (subtractLimbsRuntime x.limbs y.limbs).1
        (modulus.map (· &&& (0 - 0 : UInt64)))).1.1 =
          value (subtractLimbsRuntime x.limbs y.limbs).1.1 + 0 := by
      rw [← hMask]
      apply value_addLimbs_of_lt
      rw [hMask, add_zero]
      exact value_words_lt _
    rw [hSum, add_zero]
    rfl

theorem Repr.mulSmallConst (hx : x.Repr v) (m : UInt32) :
    (x.mulSmallConst m).Repr (v * m.toNat) := by
  have hm : (m.toUInt64.toNat : Fp) = m.toNat := by rw [UInt32.toNat_toUInt64]
  rw [Fe301.mulSmallConst, mulConst_eq, ← hm]
  exact hx.mul (repr_fromU64 _)

theorem mulSmallConst_eq (hx : x.Repr v) (m : UInt32) : x.mulSmallConst m = x.mulSmall m :=
  (hx.mulSmallConst m).ext (hx.mulSmall m)

theorem Repr.conditionalSelect (hx : x.Repr v) (hy : y.Repr w) (choice : Bool) :
    (Fe301.conditionalSelect x y choice).Repr (if choice then w else v) := by
  cases choice with
  | false => exact hx
  | true => exact hy

end Fe301

namespace Fe301Lazy

variable {x y : Fe301Lazy} {v w : Fp}

theorem repr_fromFe301 {z : Fe301} (h : z.Repr v) : (fromFe301 z).Repr v := by
  have hLt := h.lt
  have hBound : value (fromFe301 z).limbs.1 < 2 * P := hLt.trans (by omega)
  exact ⟨hBound, h.cast⟩

theorem repr_one : one.Repr 1 := repr_fromFe301 Fe301.repr_one

theorem Repr.canonical (h : x.Repr v) : x.canonical.Repr v :=
  Fe301.repr_conditionalSubtract h.1 h.2

theorem addLoose_exact (hx : value x.limbs.1 < 2 * P) (hy : value y.limbs.1 < 2 * P) :
    (addLimbs x.limbs y.limbs).2 = 0 ∧
      value (x.addLoose y).limbs.1 = value x.limbs.1 + value y.limbs.1 := by
  obtain ⟨-, -, hWords, -⟩ := P_bounds
  exact Fe301.addLimbs_of_lt (by omega)

theorem subLoose_exact (hx : value x.limbs.1 < 2 * P) (hy : value y.limbs.1 < 2 * P) :
    (addLimbs x.limbs modulusTimesTwo).2 = 0 ∧
      (subtractLimbsRuntime (addLimbs x.limbs modulusTimesTwo).1 y.limbs).2 = 0 ∧
      value (x.subLoose y).limbs.1 + value y.limbs.1 = value x.limbs.1 + 2 * P := by
  obtain ⟨-, -, hWords, -⟩ := P_bounds
  have hOffset := value_modulusTimesTwo
  obtain ⟨hCarry, hSum⟩ := @Fe301.addLimbs_of_lt x.limbs modulusTimesTwo (by omega)
  rw [hOffset] at hSum
  obtain ⟨hBorrow, hDifference⟩ :=
    (subtractLimbsRuntime_spec (addLimbs x.limbs modulusTimesTwo).1 y.limbs).2 (by omega)
  rw [hSum] at hDifference
  exact ⟨hCarry, hBorrow, hDifference⟩

theorem Repr.addLoose (hx : x.Repr v) (hy : y.Repr w) : (x.addLoose y).Repr (v + w) := by
  have hxLt := hx.1
  have hyLt := hy.1
  have hSum := (addLoose_exact hxLt hyLt).2
  exact ⟨by omega, by rw [hSum, Nat.cast_add, hx.2, hy.2]⟩

theorem Repr.subLoose (hx : x.Repr v) (hy : y.Repr w) : (x.subLoose y).Repr (v - w) := by
  have hxLt := hx.1
  have hyLt := hy.1
  have hDifference := (subLoose_exact hxLt hyLt).2.2
  refine ⟨by omega, ?_⟩
  have hCast := congrArg (Nat.cast (R := Fp)) hDifference
  rw [Nat.cast_add, Nat.cast_add, Nat.cast_mul, ZMod.natCast_self, mul_zero, add_zero, hx.2,
    hy.2] at hCast
  exact eq_sub_of_add_eq hCast

theorem Repr.mul (hx : x.Repr v) (hy : y.Repr w) : (x.mul y).Repr (v * w) := by
  have hxLt := hx.1
  have hyLt := hy.1
  have hProduct := @reduceWideUnreduced_mul x.limbs y.limbs (by omega) (by omega)
  rw [hx.2, hy.2] at hProduct
  exact hProduct

theorem square_eq_mul (x : Fe301Lazy) : x.square = x.mul x := by
  rw [square, mul, squareWide_eq]

theorem Repr.square (hx : x.Repr v) : x.square.Repr (v ^ 2) := by
  rw [square_eq_mul, sq]
  exact hx.mul hx

theorem Repr.mulSmall (hx : x.Repr v) (m : UInt32) : (x.mulSmall m).Repr (v * m.toNat) := by
  have hxLt := hx.1
  have hProduct := @reduceSmall_mul x.limbs (by omega) m
  rw [hx.2] at hProduct
  exact hProduct

end Fe301Lazy

namespace Fe301LazyLinear

variable {x y : Fe301LazyLinear} {v w : Fp}

theorem Repr.mul (hx : x.Repr v) (hy : y.Repr w) : (x.mul y).Repr (v * w) := by
  have hProduct := reduceWideUnreduced_mul hx.1 hy.1
  rw [hx.2, hy.2] at hProduct
  exact hProduct

theorem square_eq_mul (x : Fe301LazyLinear) : x.square = x.mul x := by
  rw [square, mul, squareWide_eq]

theorem Repr.square (hx : x.Repr v) : x.square.Repr (v ^ 2) := by
  rw [square_eq_mul, sq]
  exact hx.mul hx

theorem Repr.mulTight {z : Fe301Lazy} (hx : x.Repr v) (hz : z.Repr w) :
    (x.mulTight z).Repr (v * w) := by
  have hzLt := hz.1
  have hProduct := @reduceWideUnreduced_mul x.limbs z.limbs hx.1 (by omega)
  rw [hx.2, hz.2] at hProduct
  exact hProduct

theorem Repr.mulSmall (hx : x.Repr v) (m : UInt32) : (x.mulSmall m).Repr (v * m.toNat) := by
  have hProduct := reduceSmall_mul hx.1 m
  rw [hx.2] at hProduct
  exact hProduct

theorem Repr.tighten (hx : x.Repr v) : x.tighten.Repr v := by
  have hxLt := hx.1
  obtain ⟨hLess, hGreater⟩ := subtractLimbsRuntime_spec x.limbs modulusTimesTwo
  rw [value_modulusTimesTwo] at hLess hGreater
  cases lt_or_ge (value x.limbs.1) (2 * P) with
  | inl h =>
    have hLsb : lsb (1 ^^^ 1) = false := by decide
    have hResult : x.tighten.limbs = x.limbs := by
      simp only [Fe301LazyLinear.tighten, (hLess h).1, hLsb]
      rfl
    exact ⟨by rw [hResult]; exact h, by rw [hResult]; exact hx.2⟩
  | inr h =>
    have hLsb : lsb (0 ^^^ 1) = true := by decide
    obtain ⟨hBorrow, hDifference⟩ := hGreater h
    have hResult : x.tighten.limbs = (subtractLimbsRuntime x.limbs modulusTimesTwo).1 := by
      simp only [Fe301LazyLinear.tighten, hBorrow, hLsb, if_true]
    rw [← hResult] at hDifference
    refine ⟨by omega, ?_⟩
    have hCast := congrArg (Nat.cast (R := Fp)) hDifference
    rwa [Nat.cast_add, Nat.cast_mul, ZMod.natCast_self, mul_zero, add_zero, hx.2] at hCast

end Fe301LazyLinear

end X301Provider
