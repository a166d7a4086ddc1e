import X301Provider.BigInt.Montgomery
import X301Provider.Library.MontgomeryReduction

/-!
# One row of the Montgomery product

A row multiplies one limb in, adds the multiple of the modulus that clears the lowest limb and
shifts by one limb, all in place. The carry between the limbs has 65 bits; no wide word
overflows but in the sums whose overflow is kept.
-/

namespace X301Provider.BigInt

open Limbs Limbs.Checked
open Observed (Ensures)

variable {n : ℕ}

section Words

theorem toNat_le (word : UInt64) : word.toNat ≤ wordBase - 1 := Nat.le_pred_of_lt (toNat_lt word)

theorem product_le (left right : UInt64) :
    left.toNat * right.toNat ≤ (wordBase - 1) * (wordBase - 1) :=
  Nat.mul_le_mul (toNat_le left) (toNat_le right)

/-- The words below the position of a store, and the stored word. -/
theorem value_take_set (words : Words n) (i : Fin n) (word : UInt64) :
    value ((words.set i word).1.take (i + 1)) =
      value (words.1.take i) + wordBase ^ (i : ℕ) * word.toNat := by
  have hList : (words.set i word).1 = words.1.set i word := List.Vector.toList_set words i word
  have hBelow : (words.set i word).1.take i = words.1.take i := by
    rw [hList, List.take_set_of_le le_rfl]
  rw [value_take_succ, hBelow, List.Vector.get_set_same]

/-- A sum of two wide words in its low word and the rest. -/
theorem wideCarry_spec {a b : ℕ} (ha : a < 2 ^ 128) (hb : b < 2 ^ 128) :
    (lo (overflowingAdd a b).1).toNat + wordBase * wideCarry (overflowingAdd a b) = a + b := by
  have hLow : (u128 (a + b)) >>> 64 < 2 ^ 64 := by
    rw [Nat.shiftRight_eq_div_pow, u128]
    omega
  have hCarry : wideCarry (overflowingAdd a b) =
      2 ^ 64 * (decide (2 ^ 128 ≤ a + b)).toNat + u128 (a + b) / 2 ^ 64 := by
    rw [wideCarry, overflowingAdd, ← Nat.shiftLeft_add_eq_or_of_lt hLow, Nat.shiftLeft_eq,
      Nat.shiftRight_eq_div_pow, mul_comm]
  rw [lo_toNat, hCarry, overflowingAdd, wordBase, u128]
  by_cases hOverflow : 2 ^ 128 ≤ a + b
  · rw [decide_eq_true hOverflow, Bool.toNat_true]
    omega
  · rw [decide_eq_false hOverflow, Bool.toNat_false]
    omega

theorem wideCarry_le {a b : ℕ} (ha : a + wordBase ≤ 2 ^ 128) (hb : b < 2 ^ 128) :
    wideCarry (overflowingAdd a b) + 2 ≤ 2 ^ 65 := by
  have hSum := wideCarry_spec (a := a) (b := b) (by have := wordBase_pos; omega) hb
  rw [wordBase_eq] at *
  omega

end Words

section Rows

variable {x y modulus out : Uint n} {xi u : UInt64}

/-- The limbs of a row below an index have moved one place down. -/
structure RowInvariant (xi u : UInt64) (y modulus out : Uint n) (j : ℕ) (row : Uint n × ℕ) :
    Prop where
  carry_le : row.2 + 2 ≤ 2 ^ 65
  moved : wordBase * value (row.1.1.take j) + wordBase ^ (j + 1) * row.2 =
    value (out.1.take (j + 1)) + xi.toNat * value (y.1.take (j + 1)) +
      u.toNat * value (modulus.1.take (j + 1))
  rest : ∀ i : Fin n, j ≤ i → row.1.get i = out.get i

theorem montgomeryLimb_ensures {j : Fin (n - 1)} {row : Uint n × ℕ}
    (h : RowInvariant xi u y modulus out j row) :
    Ensures WordReport.Exact (montgomeryLimb xi u y modulus row j)
      (RowInvariant xi u y modulus out (j + 1)) := by
  obtain ⟨hCarry, hMoved, hRest⟩ := h
  have hBound : (j : ℕ) + 1 < n := by omega
  have hOut : row.1.get ⟨j + 1, hBound⟩ = out.get ⟨j + 1, hBound⟩ :=
    hRest ⟨j + 1, hBound⟩ (Nat.le_succ _)
  have hFits := fits_mul_add xi (y.get ⟨j + 1, hBound⟩) (out.get ⟨j + 1, hBound⟩)
  have hSecond : u.toNat * (modulus.get ⟨j + 1, hBound⟩).toNat + row.2 < 2 ^ 128 := by
    have hProduct := product_le u (modulus.get ⟨j + 1, hBound⟩)
    rw [wordBase_eq] at hProduct
    omega
  have hFirst := hFits
  unfold Fits at hFirst
  have hAxy : xi.toNat * (y.get ⟨j + 1, hBound⟩).toNat + (row.1.get ⟨j + 1, hBound⟩).toNat <
      2 ^ 128 := by
    rw [hOut]
    rw [wordBase_eq] at hFirst
    omega
  refine (accumulate_ensures hAxy).bind ?_
  rintro axy rfl
  refine (accumulate_ensures hSecond).bind ?_
  rintro umc rfl
  apply Ensures.pure
  rw [hOut]
  have hSum := wideCarry_spec (a := xi.toNat * (y.get ⟨j + 1, hBound⟩).toNat +
    (out.get ⟨j + 1, hBound⟩).toNat) (by rw [wordBase_eq] at hFirst; omega) hSecond
  constructor
  · exact wideCarry_le hFirst hSecond
  · have hTake := value_take_set row.1 ⟨j, by omega⟩ (lo (overflowingAdd
      (xi.toNat * (y.get ⟨j + 1, hBound⟩).toNat + (out.get ⟨j + 1, hBound⟩).toNat)
      (u.toNat * (modulus.get ⟨j + 1, hBound⟩).toNat + row.2)).1)
    have hOutTake := value_take_succ out ⟨j + 1, hBound⟩
    have hYTake := value_take_succ y ⟨j + 1, hBound⟩
    have hModulusTake := value_take_succ modulus ⟨j + 1, hBound⟩
    simp only at hTake hOutTake hYTake hModulusTake ⊢
    rw [hTake, hOutTake, hYTake, hModulusTake]
    have hPower : wordBase ^ ((j : ℕ) + 1 + 1) = wordBase ^ ((j : ℕ) + 1) * wordBase := pow_succ _ _
    have hLast : wordBase ^ ((j : ℕ) + 1) = wordBase ^ (j : ℕ) * wordBase := pow_succ _ _
    rw [hPower]
    rw [hLast] at hMoved ⊢
    linear_combination hMoved + wordBase ^ (j : ℕ) * wordBase * hSum
  · intro i hi
    rw [List.Vector.get_set_of_ne (by rw [Ne, Fin.ext_iff]; simp only; omega)]
    exact hRest i (by omega)

/-- The lowest limb of a value, against the whole of it. -/
theorem get_first_modEq (words : Uint n) (i : Fin n) :
    (words.get ⟨0, i.pos⟩).toNat ≡ value words.1 [MOD wordBase] := by
  have hSplit := value_drop words ⟨0, i.pos⟩
  rw [List.drop_zero] at hSplit
  rw [hSplit, Nat.ModEq, Nat.add_mul_mod_self_left]

/-- The factor of a row clears its lowest limb. -/
theorem dvd_first {modNegInv : UInt64}
    (hCancels : Montgomery.Cancels wordBase (value modulus.1) modNegInv.toNat) (i : Fin n)
    (axy : ℕ) :
    wordBase ∣ axy + (lo axy * modNegInv).toNat * (modulus.get ⟨0, i.pos⟩).toNat := by
  have hFactor : (lo axy * modNegInv).toNat = axy * modNegInv.toNat % wordBase := by
    rw [UInt64.toNat_mul, lo_toNat, wordBase, Nat.mod_mul_mod]
  have hFirst : Montgomery.Cancels wordBase (modulus.get ⟨0, i.pos⟩).toNat modNegInv.toNat := by
    have hMod := ((get_first_modEq modulus i).mul_left modNegInv.toNat).add_right 1
    exact (hMod.dvd_iff dvd_rfl).mpr hCancels
  rw [hFactor]
  exact hFirst.dvd axy

/-- The invariant after the first limb, which leaves no word. -/
theorem rowInvariant_first {modNegInv : UInt64}
    (hCancels : Montgomery.Cancels wordBase (value modulus.1) modNegInv.toNat) (i : Fin n)
    {axy : ℕ} (hAxy : axy = xi.toNat * (y.get ⟨0, i.pos⟩).toNat + (out.get ⟨0, i.pos⟩).toNat)
    (hu : u = lo axy * modNegInv) :
    RowInvariant xi u y modulus out 0
      (out, wideCarry (overflowingAdd (u.toNat * (modulus.get ⟨0, i.pos⟩).toNat) axy)) := by
  have hFits := fits_mul_add xi (y.get ⟨0, i.pos⟩) (out.get ⟨0, i.pos⟩)
  have hProduct := product_le u (modulus.get ⟨0, i.pos⟩)
  have hDvd := dvd_first hCancels i axy
  unfold Fits at hFits
  rw [← hAxy] at hFits
  rw [← hu] at hDvd
  have hSum := wideCarry_spec (a := u.toNat * (modulus.get ⟨0, i.pos⟩).toNat) (b := axy)
    (by rw [wordBase_eq] at hProduct; omega) (by rw [wordBase_eq] at hFits; omega)
  have hLow : (lo (overflowingAdd (u.toNat * (modulus.get ⟨0, i.pos⟩).toNat) axy).1).toNat = 0 := by
    rw [add_comm] at hDvd
    rw [← hSum, Nat.dvd_add_left (dvd_mul_right _ _)] at hDvd
    exact Nat.eq_zero_of_dvd_of_lt hDvd (toNat_lt _)
  constructor
  · exact wideCarry_le (by rw [wordBase_eq] at hProduct ⊢; omega)
      (by rw [wordBase_eq] at hFits; omega)
  · have hOutTake := value_take_succ out ⟨0, i.pos⟩
    have hYTake := value_take_succ y ⟨0, i.pos⟩
    have hModulusTake := value_take_succ modulus ⟨0, i.pos⟩
    simp only [List.take_zero, value_nil, pow_zero, one_mul, zero_add, mul_zero, pow_one]
      at hOutTake hYTake hModulusTake ⊢
    rw [hOutTake, hYTake, hModulusTake]
    rw [hLow, zero_add, hAxy] at hSum
    rw [hAxy]
    linear_combination hSum
  · intro _ _
    rfl

/-- A row with a carry bit: the limb is multiplied in, a multiple of the modulus is added and
the sum is divided by the base. -/
theorem montgomeryRow_ensures {modNegInv : UInt64}
    (hCancels : Montgomery.Cancels wordBase (value modulus.1) modNegInv.toNat)
    {state : Uint n × ℕ} (hMeta : state.2 ≤ 1) (i : Fin n) :
    Ensures WordReport.Exact (montgomeryRow x y modulus modNegInv state i) fun next =>
      ∃ u : UInt64, wordBase * (value next.1.1 + wordBase ^ n * next.2) =
        value state.1.1 + wordBase ^ n * state.2 + (x.get i).toNat * value y.1 +
          u.toNat * value modulus.1 := by
  have hFits := fits_mul_add (x.get i) (y.get ⟨0, i.pos⟩) (state.1.get ⟨0, i.pos⟩)
  unfold Fits at hFits
  have hFirst : (x.get i).toNat * (y.get ⟨0, i.pos⟩).toNat + (state.1.get ⟨0, i.pos⟩).toNat <
      2 ^ 128 := by
    rw [wordBase_eq] at hFits
    omega
  refine (accumulate_ensures hFirst).bind ?_
  intro axy hAxy
  have hMultiple : (lo axy * modNegInv).toNat * (modulus.get ⟨0, i.pos⟩).toNat < 2 ^ 128 := by
    have hProduct := product_le (lo axy * modNegInv) (modulus.get ⟨0, i.pos⟩)
    rw [wordBase_eq] at hProduct
    omega
  refine (accumulate_ensures hMultiple).bind ?_
  rintro um rfl
  refine (Ensures.foldlM (RowInvariant (x.get i) (lo axy * modNegInv) y modulus state.1)
    (fun j row h => montgomeryLimb_ensures h)
    (rowInvariant_first hCancels i hAxy rfl)).bind ?_
  rintro row ⟨hCarry, hMoved, -⟩
  have hMetaCarry : row.2 + state.2 < 2 ^ 128 := by omega
  refine (accumulate_ensures hMetaCarry).bind ?_
  rintro carry rfl
  apply Ensures.pure
  refine ⟨lo axy * modNegInv, ?_⟩
  have hLast : n - 1 + 1 = n := Nat.sub_add_cancel i.pos
  have hTake := value_take_set row.1 ⟨n - 1, Nat.sub_lt i.pos one_pos⟩ (lo (row.2 + state.2))
  simp only [hLast, value_take_length] at hTake hMoved ⊢
  rw [hTake, lo_toNat, Nat.shiftRight_eq_div_pow]
  have hSplit := Nat.mod_add_div (row.2 + state.2) wordBase
  have hPower : wordBase ^ n = wordBase ^ (n - 1) * wordBase := by rw [← pow_succ, hLast]
  have hBase : (2 : ℕ) ^ 64 = wordBase := rfl
  rw [hBase]
  rw [hPower] at hMoved ⊢
  linear_combination hMoved + wordBase ^ (n - 1) * wordBase * hSplit

end Rows

section Product

variable {x y modulus : Uint n} {modNegInv : UInt64}

theorem pos_of_cancels (hCancels : Montgomery.Cancels wordBase (value modulus.1) modNegInv.toNat) :
    0 < value modulus.1 := by
  apply Nat.pos_of_ne_zero
  intro hZero
  rw [Montgomery.Cancels, hZero, mul_zero, zero_add, Nat.dvd_one] at hCancels
  exact absurd hCancels (by decide)

/-- The array with the carry above it is what is left of the product. -/
def Left (x y modulus : Uint n) (i : ℕ) (state : Uint n × ℕ) : Prop :=
  Montgomery.Reduces wordBase (value modulus.1) i (value (x.1.take i)) (value y.1)
    (value state.1.1 + wordBase ^ n * state.2)

theorem value_take_lt (words : Uint n) {i : ℕ} (hi : i ≤ n) :
    value (words.1.take i) < wordBase ^ i := by
  have hLt := value_lt (words.1.take i)
  rwa [List.length_take, words.2, Nat.min_eq_left hi] at hLt

theorem Left.carry_le {i : ℕ} {state : Uint n × ℕ} (h : Left x y modulus i state) (hi : i ≤ n)
    (hPos : 0 < value modulus.1) : state.2 ≤ 1 := by
  have hLt := h.lt_add (value_take_lt x hi) hPos
  have hy := value_words_lt y
  have hModulus := value_words_lt modulus
  by_contra hLarge
  have hTwo := Nat.mul_le_mul_left (wordBase ^ n) (Nat.lt_of_not_le hLarge)
  omega

/-- No wide word overflows, and the result with its carry is the Montgomery product up to one
multiple of the modulus. -/
theorem montgomeryMultiplyInner_ensures (x y : Uint n)
    (hCancels : Montgomery.Cancels wordBase (value modulus.1) modNegInv.toNat) :
    Ensures WordReport.Exact (montgomeryMultiplyInner x y modulus modNegInv) fun result =>
      Montgomery.Reduces wordBase (value modulus.1) n (value x.1) (value y.1)
          (value result.1.1 + wordBase ^ n * result.2.toNat) ∧ result.2.toNat ≤ 1 := by
  have hPos := pos_of_cancels hCancels
  refine (Ensures.foldlM (fun i state => i ≤ n ∧ Left x y modulus i state) ?_ ?_).bind ?_
  · rintro i state ⟨hi, hLeft⟩
    refine (montgomeryRow_ensures hCancels (hLeft.carry_le hi hPos) i).mono ?_
    rintro next ⟨u, hNext⟩
    refine ⟨i.2, ?_⟩
    rw [Left, value_take_succ]
    exact hLeft.step (toNat_lt u) hNext
  · refine ⟨Nat.zero_le _, ?_⟩
    rw [Left, List.take_zero, Uint.value_zero]
    exact Montgomery.reduces_zero _ _ _
  · rintro state ⟨-, hLeft⟩
    apply Ensures.pure
    have hCarry := hLeft.carry_le le_rfl hPos
    rw [Left, value_take_length] at hLeft
    have hMeta : (lo state.2).toNat = state.2 := by
      rw [lo_toNat, Nat.mod_eq_of_lt (by rw [wordBase_eq]; omega)]
    rw [hMeta]
    exact ⟨hLeft, hCarry⟩

end Product

end X301Provider.BigInt
