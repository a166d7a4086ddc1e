import X301Provider.BigInt.MontgomeryRows

/-!
# Reduction of twice the limbs

A pass adds the multiple of the modulus that clears the lowest limb left. The cleared limb keeps
its old word in the array, which nothing reads any more; the limbs above it are the sum divided
by the base.
-/

namespace X301Provider.BigInt

open Limbs Limbs.Checked
open Observed (Ensures)

variable {n : ℕ} {modulus : Uint n} {modNegInv : UInt64}

/-- The limbs from an index on, with the carry above the ones that the passes have reached. -/
def remaining (i : ℕ) (state : Words (2 * n) × UInt64) : ℕ :=
  value (state.1.1.drop i) + wordBase ^ n * state.2.toNat

/-- Inside a pass: the limbs up to the cleared one stay, and the sum still contains the word that
should have been cleared. -/
structure PassBelow (u : UInt64) (modulus : Uint n) (wide : Words (2 * n)) (i : Fin n) (j : ℕ)
    (row : Words (2 * n) × UInt64) : Prop where
  value_eq : value row.1.1 + wordBase ^ ((i : ℕ) + (j + 1)) * row.2.toNat =
    value wide.1 + wordBase ^ (i : ℕ) *
      (u.toNat * value (modulus.1.take (j + 1)) + (wide.get ⟨i, lt_double i⟩).toNat)
  below : ∀ position : Fin (2 * n), (position : ℕ) < i + 1 →
    row.1.get position = wide.get position

/-- The first limb is cleared. -/
theorem passBelow_first (hCancels : Montgomery.Cancels wordBase (value modulus.1) modNegInv.toNat)
    (wide : Words (2 * n)) (i : Fin n) :
    PassBelow (wide.get ⟨i, lt_double i⟩ * modNegInv) modulus wide i 0
      (wide, hi ((wide.get ⟨i, lt_double i⟩ * modNegInv).toNat * (modulus.get ⟨0, i.pos⟩).toNat +
        (wide.get ⟨i, lt_double i⟩).toNat)) := by
  generalize hLowest : wide.get ⟨i, lt_double i⟩ = lowest
  have hDvd := dvd_first hCancels i lowest.toNat
  have hLo : lo lowest.toNat = lowest := by
    rw [← UInt64.toNat_inj, lo_toNat, Nat.mod_eq_of_lt (toNat_lt lowest)]
  rw [hLo, add_comm] at hDvd
  have hFits := (fits_mul_add (lowest * modNegInv) (modulus.get ⟨0, i.pos⟩) lowest).accumulator_lt 0
  have hZero : (0 : UInt64).toNat = 0 := rfl
  rw [hZero, add_zero] at hFits
  have hSum := lo_add_hi hFits
  have hLow : (lo ((lowest * modNegInv).toNat * (modulus.get ⟨0, i.pos⟩).toNat +
      lowest.toNat)).toNat = 0 := by
    rw [lo_toNat]
    exact Nat.mod_eq_zero_of_dvd hDvd
  rw [hLow, zero_add] at hSum
  constructor
  · have hTake := value_take_succ modulus ⟨0, i.pos⟩
    simp only [List.take_zero, value_nil, pow_zero, one_mul, zero_add] at hTake ⊢
    rw [hTake, hLowest, pow_succ]
    linear_combination wordBase ^ (i : ℕ) * hSum
  · exact fun _ _ => rfl

theorem PassBelow.next {u : UInt64} {wide : Words (2 * n)} {i : Fin n} {j : Fin (n - 1)}
    {row : Words (2 * n) × UInt64} (h : PassBelow u modulus wide i j row) :
    Ensures WordReport.Exact
      (accumulateAt row.1 ⟨i + (j + 1), add_succ_lt_double i j⟩
        (u.toNat * (modulus.get ⟨j + 1, succ_lt_of_pred j⟩).toNat) row.2)
      (PassBelow u modulus wide i (j + 1)) := by
  obtain ⟨hValue, hBelow⟩ := h
  refine (accumulateAt_ensures (fits_mul_add _ _ _) row.2).mono ?_
  rintro next ⟨hNext, hOthers⟩
  constructor
  · have hTake := value_take_succ modulus ⟨j + 1, succ_lt_of_pred j⟩
    simp only at hNext hTake
    rw [hTake]
    linear_combination hNext + hValue
  · intro position hPosition
    rw [hOthers position (by rw [Ne, Fin.ext_iff]; simp only; omega)]
    exact hBelow position hPosition

/-- After the pass the limb above it takes the two carries, and the cleared limb is dropped. -/
theorem PassBelow.remaining_set {u carry word metaCarry : UInt64} {i : Fin n}
    {state : Words (2 * n) × UInt64} {row : Words (2 * n)}
    (h : PassBelow u modulus state.1 i (n - 1) (row, carry))
    (hWord : word.toNat + wordBase * metaCarry.toNat =
      carry.toNat + (row.get ⟨i + n, add_lt_double i⟩).toNat + state.2.toNat) :
    wordBase * remaining (i + 1) (row.set ⟨i + n, add_lt_double i⟩ word, metaCarry) =
      remaining i state + u.toNat * value modulus.1 := by
  obtain ⟨hValue, hBelow⟩ := h
  have hWhole : n - 1 + 1 = n := Nat.sub_add_cancel i.pos
  have hSet := value_set row ⟨i + n, add_lt_double i⟩ word
  have hBefore := value_take_add_drop state.1.1 i (by rw [state.1.2]; omega)
  have hAfter := value_take_add_drop (row.set ⟨i + n, add_lt_double i⟩ word).1 (i + 1) (by
    rw [List.Vector.length_val]
    omega)
  have hStay : value ((row.set ⟨i + n, add_lt_double i⟩ word).1.take (i + 1)) =
      value (state.1.1.take (i + 1)) := by
    refine value_take_congr (by omega) fun position hPosition => ?_
    rw [List.Vector.get_set_of_ne (by rw [Ne, Fin.ext_iff]; simp only; omega)]
    exact hBelow position hPosition
  have hCleared := value_take_succ state.1 ⟨i, lt_double i⟩
  simp only [hWhole, value_take_length] at hValue hSet hCleared
  rw [hStay, hCleared] at hAfter
  apply Nat.eq_of_mul_eq_mul_left (Nat.pow_pos wordBase_pos : 0 < wordBase ^ (i : ℕ))
  simp only [remaining]
  linear_combination hAfter + hSet + hValue + hBefore.symm + wordBase ^ ((i : ℕ) + n) * hWord

/-- A pass with a carry bit. -/
theorem reductionRow_ensures
    (hCancels : Montgomery.Cancels wordBase (value modulus.1) modNegInv.toNat)
    {state : Words (2 * n) × UInt64} (hMeta : state.2.toNat ≤ 1) (i : Fin n) :
    Ensures WordReport.Exact (reductionRow modulus modNegInv state i) fun next =>
      next.2.toNat ≤ 1 ∧ ∃ u : UInt64, wordBase * remaining (i + 1) next =
        remaining i state + u.toNat * value modulus.1 := by
  have hFits := (fits_mul_add (state.1.get ⟨i, lt_double i⟩ * modNegInv) (modulus.get ⟨0, i.pos⟩)
    (state.1.get ⟨i, lt_double i⟩)).accumulator_lt 0
  have hZero : (0 : UInt64).toNat = 0 := rfl
  rw [hZero, add_zero] at hFits
  refine (accumulate_ensures hFits).bind ?_
  rintro first rfl
  refine (Ensures.foldlM (PassBelow _ modulus state.1 i) (fun j row h => h.next)
    (passBelow_first hCancels state.1 i)).bind ?_
  rintro ⟨row, carry⟩ hPass
  have hLast := (fits_add carry (row.get ⟨i + n, add_lt_double i⟩)).accumulator_lt state.2
  refine (accumulate_ensures hLast).bind ?_
  rintro total rfl
  apply Ensures.pure
  have hWord := lo_add_hi hLast
  refine ⟨?_, _, hPass.remaining_set hWord⟩
  have hCarryLt := toNat_lt carry
  have hOldLt := toNat_lt (row.get ⟨i + n, add_lt_double i⟩)
  by_contra hLarge
  have hTwo := Nat.mul_le_mul_left wordBase (Nat.lt_of_not_le hLarge)
  simp only at hTwo
  omega

/-- The upper half and the carry above it are the array divided by the radix, up to one multiple
of the modulus; every sum on the way is exact. -/
theorem montgomeryReductionInner_ensures
    (hCancels : Montgomery.Cancels wordBase (value modulus.1) modNegInv.toNat)
    (wide : Words (2 * n)) :
    Ensures WordReport.Exact (montgomeryReductionInner wide modulus modNegInv) fun result =>
      Montgomery.Reduces wordBase (value modulus.1) n (value wide.1) 1
          (value (upperHalf result.1).1 + wordBase ^ n * result.2.toNat) ∧
        result.2.toNat ≤ 1 := by
  refine Ensures.foldlM (fun i state => Montgomery.Reduces wordBase (value modulus.1) i
    (value wide.1) 1 (remaining i state) ∧ state.2.toNat ≤ 1) ?_ ?_
  · rintro i state ⟨hReduces, hMeta⟩
    refine (reductionRow_ensures hCancels hMeta i).mono ?_
    rintro next ⟨hNextMeta, u, hNext⟩
    exact ⟨hReduces.cancel (toNat_lt u) hNext, hNextMeta⟩
  · have hStart : remaining 0 (wide, 0) = value wide.1 := by
      have hZero : (0 : UInt64).toNat = 0 := rfl
      rw [remaining, List.drop_zero, hZero, mul_zero, add_zero]
    rw [hStart]
    exact ⟨Montgomery.reduces_start _ _ _, Nat.zero_le 1⟩

end X301Provider.BigInt
