import X301Provider.BigInt.Uint

/-!
# Wide squares

The square of an integer into twice its limbs: every product of two different limbs once, all
of it doubled by a shift, then the squares of the limbs. The lower and the upper half of the
output are one array.
-/

namespace X301Provider.BigInt

open Limbs Limbs.Checked
open Observed (Ensures)

variable {n : ℕ}

theorem succ_lt_of_pred (j : Fin (n - 1)) : (j : ℕ) + 1 < n := by omega

theorem lt_double (i : Fin n) : (i : ℕ) < 2 * n := by omega

theorem add_lt_double (i : Fin n) : (i : ℕ) + n < 2 * n := by omega

theorem add_succ_lt_double (i : Fin n) (j : Fin (n - 1)) : (i : ℕ) + (j + 1) < 2 * n := by omega

/-- `u64::overflowing_add` of limbs, the carry as a limb. -/
def Limb.overflowingAdd (lhs rhs : UInt64) : UInt64 × UInt64 :=
  (lhs + rhs, (decide (wordBase ≤ lhs.toNat + rhs.toNat)).toUInt64)

namespace Schoolbook

/-- The lower half of the multiplication grid. -/
def crossProducts (limbs : Uint n) : Checked (Words (2 * n)) :=
  Fin.foldlM (n - 1) (fun wide i => do
    let xi := limbs.get ⟨i + 1, succ_lt_of_pred i⟩
    let row ← mulAddRow (i + 1) (by omega) xi (limbs.take (i + 1)) wide
    pure (row.1.set ⟨2 * (i + 1), by omega⟩ row.2)) (.replicate _ 0)

/-- The shift of all limbs but the top one, which is empty. -/
def doublePass (wide : Words (2 * n)) : Words (2 * n) × UInt64 :=
  Fin.foldl (2 * n - 1) (fun state i => Uint.shl1Limb state ⟨i, by omega⟩) (wide, 0)

def doubleWide (h : 0 < n) (wide : Words (2 * n)) : Words (2 * n) :=
  (doublePass wide).1.set ⟨2 * n - 1, by omega⟩ (doublePass wide).2

def addDiagonals (limbs : Uint n) (wide : Words (2 * n)) : Checked (Words (2 * n) × UInt64) :=
  Fin.foldlM n (fun state i => do
    let xi := limbs.get i
    let low ← accumulateAt state.1 ⟨2 * i, by omega⟩ (xi.toNat * xi.toNat) state.2
    let high := Limb.overflowingAdd (low.1.get ⟨2 * i + 1, by omega⟩) low.2
    pure (low.1.set ⟨2 * i + 1, by omega⟩ high.1, high.2)) (wide, 0)

def squareWide (h : 0 < n) (limbs : Uint n) : Checked (Words (2 * n)) := do
  let wide ← crossProducts limbs
  let squared ← addDiagonals limbs (doubleWide h wide)
  pure squared.1

end Schoolbook

theorem Limb.overflowingAdd_spec (lhs rhs : UInt64) :
    (overflowingAdd lhs rhs).1.toNat + wordBase * (overflowingAdd lhs rhs).2.toNat =
      lhs.toNat + rhs.toNat := by
  have hLhs := toNat_lt lhs
  have hRhs := toNat_lt rhs
  have hAdd := UInt64.toNat_add lhs rhs
  simp only [overflowingAdd]
  by_cases hOverflow : wordBase ≤ lhs.toNat + rhs.toNat
  · have hOne : (decide (wordBase ≤ lhs.toNat + rhs.toNat)).toUInt64.toNat = 1 := by
      rw [decide_eq_true hOverflow]
      rfl
    rw [hAdd, hOne, wordBase] at *
    omega
  · have hZero : (decide (wordBase ≤ lhs.toNat + rhs.toNat)).toUInt64.toNat = 0 := by
      rw [decide_eq_false hOverflow]
      rfl
    rw [hAdd, hZero, wordBase] at *
    omega

namespace Schoolbook

/-- Twice the products of the limbs below an index and their squares make up the square of the
limbs below it. A row may use one limb more. -/
structure CrossBelow (limbs : Uint n) (i : ℕ) (wide : Words (2 * n)) : Prop where
  value_eq : 2 * value wide.1 + diagonalSum (limbs.1.take (i + 1)) =
    value (limbs.1.take (i + 1)) ^ 2
  value_lt : value wide.1 < wordBase ^ (2 * i + 1)

/-- What a row adds to the limbs below it. -/
theorem row_lt {below row word : ℕ} {i : ℕ} (hBelow : below < wordBase ^ (2 * i + 1))
    (hRow : row < wordBase ^ (i + 1)) (hWord : word < wordBase) :
    below + wordBase ^ (i + 1) * (word * row) < wordBase ^ (2 * (i + 1) + 1) := by
  have hProduct : word * row ≤ (wordBase - 1) * wordBase ^ (i + 1) :=
    Nat.mul_le_mul (Nat.le_pred_of_lt hWord) hRow.le
  have hBase := wordBase_pos
  have hMono : wordBase ^ (2 * i + 1) ≤ wordBase ^ (i + 1) * wordBase ^ (i + 1) := by
    rw [← pow_add]
    exact Nat.pow_le_pow_right hBase (by omega)
  have hTop : wordBase ^ (2 * (i + 1) + 1) =
      wordBase ^ (i + 1) * wordBase ^ (i + 1) +
        wordBase ^ (i + 1) * ((wordBase - 1) * wordBase ^ (i + 1)) := by
    obtain ⟨b, hb⟩ := Nat.exists_eq_succ_of_ne_zero hBase.ne'
    rw [hb, Nat.succ_sub_one, Nat.succ_eq_add_one]
    ring
  have hScaled := Nat.mul_le_mul_left (wordBase ^ (i + 1)) hProduct
  omega

theorem crossProducts_ensures (limbs : Uint n) :
    Ensures WordReport.Exact (crossProducts limbs) (CrossBelow limbs (n - 1)) := by
  refine Ensures.foldlM (CrossBelow limbs) ?_ ?_
  · rintro i wide ⟨hValue, hLt⟩
    have hNext : (i : ℕ) + 1 < n := by omega
    have hBelow : value wide.1 < wordBase ^ (2 * ((i : ℕ) + 1)) :=
      hLt.trans_le (Nat.pow_le_pow_right wordBase_pos (by omega))
    refine (mulAddRow_set_ensures (by omega) (by simp only; omega) hBelow).mono ?_
    intro result hResult
    have hRow : value (limbs.take (i + 1)).1 = value (limbs.1.take (i + 1)) := rfl
    have hPrefix := value_lt (limbs.1.take (i + 1))
    rw [List.length_take, limbs.2, Nat.min_eq_left hNext.le] at hPrefix
    rw [hRow] at hResult
    constructor
    · have hDiagonal := diagonalSum_take_succ limbs ⟨i + 1, hNext⟩
      have hTake := value_take_succ limbs ⟨i + 1, hNext⟩
      simp only at hDiagonal hTake
      rw [hResult, hDiagonal, hTake]
      linear_combination hValue
    · rw [hResult]
      exact row_lt hLt hPrefix (toNat_lt _)
  · have hZero : value (List.Vector.replicate (2 * n) (0 : UInt64)).1 = 0 :=
      value_replicate_zero _
    constructor
    · rw [hZero]
      cases hLimbs : limbs.1 with
      | nil => rfl
      | cons word rest => simp [diagonalSum]
    · rw [hZero]
      exact Nat.pow_pos wordBase_pos

theorem doublePass_spec (wide : Words (2 * n)) :
    DoubledBelow wide 0 (2 * n - 1) (doublePass wide) := by
  refine Fin.foldl_invariant (n := 2 * n - 1) (DoubledBelow wide 0) ?_
    (.start wide (Nat.zero_le 1))
  intro i state h
  exact DoubledBelow.next (i := ⟨i, by omega⟩) h

theorem doubleWide_value (h : 0 < n) {wide : Words (2 * n)}
    (hLt : value wide.1 < wordBase ^ (2 * n - 1)) :
    value (doubleWide h wide).1 = 2 * value wide.1 := by
  obtain ⟨hValue, -, hAbove⟩ := doublePass_spec wide
  have hTop : wide.get ⟨2 * n - 1, by omega⟩ = 0 := get_eq_zero_of_lt hLt
  have hTake := value_take_succ wide ⟨2 * n - 1, by omega⟩
  have hSet := value_set (doublePass wide).1 ⟨2 * n - 1, by omega⟩ (doublePass wide).2
  have hZero : (0 : UInt64).toNat = 0 := rfl
  have hWhole : 2 * n - 1 + 1 = 2 * n := by omega
  rw [hAbove ⟨2 * n - 1, by omega⟩ le_rfl] at hSet
  simp only [hWhole, value_take_length, hTop, hZero, mul_zero, add_zero] at hTake hSet
  rw [← hTake, hZero, add_zero, ← two_mul] at hValue
  exact hSet.trans hValue

theorem addDiagonals_ensures (limbs : Uint n) (wide : Words (2 * n)) :
    Ensures WordReport.Exact (addDiagonals limbs wide) fun state =>
      value state.1.1 + wordBase ^ (2 * n) * state.2.toNat =
        value wide.1 + diagonalSum limbs.1 := by
  refine (Ensures.foldlM (fun i (state : Words (2 * n) × UInt64) =>
    value state.1.1 + wordBase ^ (2 * i) * state.2.toNat =
      value wide.1 + diagonalSum (limbs.1.take i)) ?_ ?_).mono ?_
  · rintro i ⟨state, carry⟩ hState
    refine (accumulateAt_ensures (fits_mul_add _ _ _) carry).bind ?_
    rintro ⟨low, lowCarry⟩ ⟨hLow, -⟩
    apply Ensures.pure
    have hSet := value_set low ⟨2 * i + 1, by omega⟩
      (Limb.overflowingAdd (low.get ⟨2 * i + 1, by omega⟩) lowCarry).1
    have hWord := Limb.overflowingAdd_spec (low.get ⟨2 * i + 1, by omega⟩) lowCarry
    have hTake := diagonalSum_take_succ limbs i
    simp only at hLow hSet hState ⊢
    rw [hTake, mul_add, pow_add]
    rw [pow_succ] at hLow hSet
    linear_combination hSet + hLow + hState + wordBase ^ (2 * (i : ℕ)) * wordBase * hWord
  · simp [diagonalSum]
  · intro state hState
    rwa [List.take_of_length_le limbs.2.le] at hState

/-- The square is exact, and so is every sum on the way. -/
theorem squareWide_ensures (h : 0 < n) (limbs : Uint n) :
    Ensures WordReport.Exact (squareWide h limbs) fun wide =>
      value wide.1 = value limbs.1 ^ 2 := by
  have hSquare : value limbs.1 ^ 2 < wordBase ^ (2 * n) := by
    rw [mul_comm, pow_mul]
    exact Nat.pow_lt_pow_left (value_words_lt limbs) two_ne_zero
  refine (crossProducts_ensures limbs).bind ?_
  rintro wide ⟨hValue, hLt⟩
  have hLast : 2 * (n - 1) + 1 = 2 * n - 1 := by omega
  have hWhole : n - 1 + 1 = n := Nat.sub_add_cancel h
  rw [hLast] at hLt
  rw [hWhole, List.take_of_length_le limbs.2.le] at hValue
  refine (addDiagonals_ensures limbs (doubleWide h wide)).bind ?_
  rintro ⟨squared, carry⟩ hSquared
  apply Ensures.pure
  rw [doubleWide_value h hLt, hValue] at hSquared
  exact (carry_eq_zero hSquared hSquare).2

end Schoolbook

end X301Provider.BigInt
