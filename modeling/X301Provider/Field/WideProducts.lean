import X301Provider.Field.LazySpec
import X301Provider.Library.WordLoops

/-!
# Full-width products

The loops of the wide product and the wide square over the indices of their output
arrays. On any two five-limb arrays they compute the exact product, no accumulator
overflows, and the two carries that leave the square are zero.
-/

namespace X301Provider

open Limbs Limbs.Checked
open Observed (Ensures Passes)

namespace Checked

def multiplyWide (left right : Words 5) : Checked (Words 10) :=
  Fin.foldlM 5 (fun output leftIndex => do
    let row ← mulAddRow leftIndex (by omega) (left.get leftIndex) right output
    pure (row.1.set ⟨leftIndex + 5, by omega⟩ row.2)) (.replicate 10 0)

/-- The products of two different limbs, each taken once. -/
def crossProducts (value : Words 5) : Checked (Words 10) :=
  Fin.foldlM 4 (fun output i => do
    let row ← mulAddRow (2 * i + 1) (by omega) (value.get i.castSucc) (value.drop (i + 1)) output
    pure (row.1.set ⟨i + 5, by omega⟩ row.2)) (.replicate 10 0)

def doubleWords (words : Words 10) : Words 10 × UInt64 :=
  Fin.foldl 10 (fun state i =>
    let next := state.1.get i >>> 63
    (state.1.set i ((state.1.get i <<< 1) ||| state.2), next)) (words, 0)

def addDiagonals (value : Words 5) (output : Words 10) : Checked (Words 10 × UInt64) :=
  Fin.foldlM 5 (fun state i => do
    let p ← accumulate ((value.get i).toNat * (value.get i).toNat)
    let low ← accumulateAt state.1 ⟨2 * i, by omega⟩ (lo p).toNat state.2
    accumulateAt low.1 ⟨2 * i + 1, by omega⟩ (p / wordBase) low.2) (output, 0)

def squareWide (value : Words 5) : Checked (Words 10) := do
  let output ← crossProducts value
  let doubled := doubleWords output
  discard doubled.2
  let squared ← addDiagonals value doubled.1
  discard squared.2
  pure squared.1

theorem value_replicate (n : ℕ) : value (List.Vector.replicate n (0 : UInt64)).1 = 0 :=
  value_replicate_zero n

theorem multiplyWide_ensures (left right : Words 5) :
    Ensures WordReport.Exact (multiplyWide left right) fun output =>
      value output.1 = value left.1 * value right.1 := by
  refine (Ensures.foldlM (fun i (output : Words 10) =>
    value output.1 = value (left.1.take i) * value right.1) ?_ ?_).mono ?_
  · intro i output hOutput
    have hPrefix := value_lt (left.1.take i)
    rw [List.length_take, left.2, Nat.min_eq_left i.2.le] at hPrefix
    have hLt : value output.1 < wordBase ^ ((i : ℕ) + 5) := by
      rw [hOutput, pow_add]
      exact Nat.mul_lt_mul'' hPrefix (value_words_lt right)
    refine (mulAddRow_set_ensures (by omega) rfl hLt).mono ?_
    intro result hResult
    rw [hResult, hOutput, value_take_succ]
    ring
  · rw [value_replicate]
    simp
  · intro output hOutput
    rwa [value_take_length] at hOutput

/-- After `i` rows of the square twice the cross products, the diagonal below `i` and the square
of what is left make up the whole square. -/
def CrossInvariant (x : Words 5) (i : ℕ) (output : Words 10) : Prop :=
  2 * value output.1 + diagonalSum (x.1.take i) + (wordBase ^ i * value (x.1.drop i)) ^ 2 =
    value x.1 ^ 2

theorem CrossInvariant.lt {x : Words 5} {i : ℕ} {output : Words 10} (h : CrossInvariant x i output)
    (hi : i < 5) : value output.1 < wordBase ^ (i + 5) := by
  have hSplit := value_take_add_drop x.1 i (by rw [x.2]; omega)
  have hPrefix := value_lt (x.1.take i)
  rw [List.length_take, x.2, Nat.min_eq_left hi.le] at hPrefix
  have hProduct := Nat.mul_lt_mul'' hPrefix (value_words_lt x)
  rw [← pow_add] at hProduct
  unfold CrossInvariant at h
  refine lt_of_le_of_lt ?_ hProduct
  rw [← hSplit] at h ⊢
  generalize wordBase ^ i * value (x.1.drop i) = rest at *
  nlinarith [Nat.zero_le (diagonalSum (x.1.take i)), sq_nonneg (value (x.1.take i))]

theorem crossProducts_ensures (x : Words 5) :
    Ensures WordReport.Exact (crossProducts x) fun output =>
      2 * value output.1 + diagonalSum x.1 = value x.1 ^ 2 := by
  refine (Ensures.foldlM (CrossInvariant x) ?_ ?_).mono ?_
  · intro i output hOutput
    have hLt := hOutput.lt (by omega : (i : ℕ) < 5)
    refine (mulAddRow_set_ensures (by omega) (by simp only; omega) hLt).mono ?_
    intro result hResult
    have hTake := diagonalSum_take_succ x i.castSucc
    have hDrop := value_drop x i.castSucc
    have hRow : value (x.drop (i + 1)).1 = value (x.1.drop (i + 1)) := rfl
    unfold CrossInvariant at hOutput ⊢
    simp only [Fin.val_castSucc] at hTake hDrop
    rw [hDrop] at hOutput
    rw [hResult, hTake, hRow]
    linear_combination hOutput
  · simp [CrossInvariant, value_replicate, diagonalSum]
  · intro output hOutput
    have hTake := diagonalSum_take_succ x 4
    have hDrop := value_drop x 4
    have hWhole : x.1.take 5 = x.1 := List.take_of_length_le x.2.le
    have hRest : x.1.drop 5 = [] := List.drop_of_length_le x.2.le
    have hFour : ((4 : Fin 5) : ℕ) = 4 := rfl
    unfold CrossInvariant at hOutput
    simp only [hFour, Nat.reduceAdd, hWhole, hRest, value_nil] at hTake hDrop
    rw [hDrop] at hOutput
    rw [hTake]
    linear_combination hOutput

theorem doubleWords_spec (words : Words 10) : DoubledBelow words 0 10 (doubleWords words) :=
  Fin.foldl_invariant (DoubledBelow words 0) (fun _ _ h => h.next)
    (.start words (Nat.zero_le 1))

theorem addDiagonals_ensures (x : Words 5) (output : Words 10) :
    Ensures WordReport.Exact (addDiagonals x output) fun state =>
      value state.1.1 + wordBase ^ 10 * state.2.toNat = value output.1 + diagonalSum x.1 := by
  refine (Ensures.foldlM (fun i (state : Words 10 × UInt64) =>
    value state.1.1 + wordBase ^ (2 * i) * state.2.toNat =
      value output.1 + diagonalSum (x.1.take i)) ?_ ?_).mono ?_
  · rintro i ⟨state, carry⟩ hState
    have hProduct : (x.get i).toNat * (x.get i).toNat < 2 ^ 128 :=
      (fits_mul_add (x.get i) (x.get i) 0).accumulator_lt 0
    refine (accumulate_ensures hProduct).bind ?_
    rintro p rfl
    refine (accumulateAt_ensures (fits_add _ _) carry).bind ?_
    rintro ⟨low, lowCarry⟩ ⟨hLow, hOthers⟩
    refine (accumulateAt_ensures ?_ lowCarry).mono ?_
    · rw [add_comm]
      exact fits_add_high _ _
    · rintro ⟨high, highCarry⟩ ⟨hHigh, -⟩
      have hSquare := Nat.mod_add_div ((x.get i).toNat * (x.get i).toNat) wordBase
      have hTake := diagonalSum_take_succ x i
      simp only [lo_toNat] at hLow hHigh hState ⊢
      rw [hTake]
      rw [mul_add, pow_add]
      rw [pow_succ] at hLow hHigh
      rw [pow_succ] at hHigh
      linear_combination hHigh + hLow + hState + wordBase ^ (2 * (i : ℕ)) * hSquare
  · simp [diagonalSum]
  · intro state hState
    rwa [List.take_of_length_le x.2.le] at hState

theorem squareWide_ensures (x : Words 5) :
    Ensures WordReport.Exact (squareWide x) fun output => value output.1 = value x.1 ^ 2 := by
  have hSquare : value x.1 ^ 2 < wordBase ^ 10 := by
    rw [sq, pow_add wordBase 5 5]
    exact Nat.mul_lt_mul'' (value_words_lt x) (value_words_lt x)
  refine (crossProducts_ensures x).bind ?_
  intro output hOutput
  have hDoubled := (doubleWords_spec output).value_eq
  have hZero : (0 : UInt64).toNat = 0 := rfl
  rw [value_take_length, ← two_mul, hZero, add_zero] at hDoubled
  obtain ⟨hCarry, hValue⟩ := carry_eq_zero hDoubled (by omega)
  refine (discard_ensures hCarry).bind ?_
  intro _ _
  refine (addDiagonals_ensures x (doubleWords output).1).bind ?_
  rintro ⟨squared, carry⟩ hSquared
  obtain ⟨hLast, hResult⟩ := carry_eq_zero hSquared (by omega)
  refine (discard_ensures hLast).bind ?_
  intro _ _
  apply Ensures.pure
  omega

end Checked

/-- On any two arrays the loops compute the exact product and the exact square, and every
accumulator and every dropped carry on the way is exact. -/
theorem wideProducts_exact (x y : Words 5) :
    Passes WordReport.Exact (Checked.multiplyWide x y) (multiplyWide x y) ∧
      value (multiplyWide x y).1 = value x.1 * value y.1 ∧
      Passes WordReport.Exact (Checked.squareWide x) (squareWide x) ∧
      squareWide x = multiplyWide x x := by
  have hProduct := value_multiplyWide x y
  have hSquare := value_squareWide x
  refine ⟨?_, hProduct, ?_, squareWide_eq x⟩
  · apply (Checked.multiplyWide_ensures x y).passes
    intro output hOutput
    exact words_ext (hOutput.trans hProduct.symm)
  · apply (Checked.squareWide_ensures x).passes
    intro output hOutput
    rw [sq] at hOutput
    exact words_ext (hOutput.trans hSquare.symm)

end X301Provider
