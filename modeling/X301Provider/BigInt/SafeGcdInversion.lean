import X301Provider.BigInt.SafeGcdCombination

/-!
# The inversion by division steps

The main loop follows the division steps on the modulus and the value in batches of 62. With a
greatest common divisor of one the integer that is carried along is the inverse, times the
adjuster; the variable time loop that stops at zero gives the same.
-/

namespace X301Provider.BigInt

open Limbs DivisionSteps

variable {n : ℕ}

namespace SignedInt

/-- The tail of an integer in a word. -/
theorem lowest_modEq (x : SignedInt n) : x.lowest.toInt ≡ x.toInt [ZMOD 2 ^ 63] := by
  have hMask := and_lowMask_toNat x.magnitude.lowestU64 (show 0 < 63 by decide)
    (show 63 < 64 by decide)
  have hShift : UInt64.ofNat (64 - 63) = 1 := rfl
  have hDvd : 2 ^ 63 ∣ wordBase := pow_dvd_pow 2 (Nat.le_succ 63)
  rw [hShift, lowestU64_toNat, Nat.mod_mod_of_dvd _ hDvd] at hMask
  have hTail : (x.magnitude.lowestU64 &&& ((0xffffffffffffffff : UInt64) >>> 1)).toInt64.toInt ≡
      value x.magnitude.1 [ZMOD 2 ^ 63] := by
    have hWord := modEq_of_le (Nat.le_succ 63)
      (toInt_modEq (x.magnitude.lowestU64 &&& ((0xffffffffffffffff : UInt64) >>> 1)).toInt64)
    rw [UInt64.toUInt64_toInt64, hMask] at hWord
    refine hWord.trans ?_
    push_cast
    exact Int.mod_modEq _ _
  rw [lowest, toInt]
  cases x.sign with
  | false => exact hTail
  | true =>
    simp only [SafeGcd.selectI64, if_true, signedValue]
    rw [Int64.toInt_neg]
    exact (modEq_of_le (Nat.le_succ 63) (bmod_modEq _)).trans hTail.neg

section Combination

variable {a b : SignedInt n} {c d : Int64} {shift : ℕ} {m : Uint n} {mi : UInt64}

/-- A combination of residues with a row of the matrix of a batch. -/
theorem combination_fits {bound : ℕ} (hLt : shift < 64) (hBound : bound < wordBase ^ n)
    (ha : |a.toInt| ≤ bound) (hb : |b.toInt| ≤ bound) (hRow : |c.toInt| + |d.toInt| ≤ 2 ^ shift) :
    |a.toInt| * |c.toInt| + |b.toInt| * |d.toInt| ≤ 2 ^ shift * bound ∧
      |a.toInt| * |c.toInt| + |b.toInt| * |d.toInt| < (wordBase ^ n * wordBase : ℕ) := by
  have hLeft := mul_le_mul_of_nonneg_right ha (abs_nonneg c.toInt)
  have hRight := mul_le_mul_of_nonneg_right hb (abs_nonneg d.toInt)
  have hScaled := mul_le_mul_of_nonneg_left hRow (show (0 : ℤ) ≤ bound from Nat.cast_nonneg bound)
  have hTotal : |a.toInt| * |c.toInt| + |b.toInt| * |d.toInt| ≤ 2 ^ shift * bound := by linarith
  have hRoom : 2 ^ shift * bound < wordBase ^ n * wordBase := by
    have hPow : 2 ^ shift ≤ wordBase := Nat.pow_le_pow_right (by decide) hLt.le
    calc
      2 ^ shift * bound ≤ wordBase * bound := Nat.mul_le_mul_right _ hPow
      _ < wordBase * wordBase ^ n := Nat.mul_lt_mul_of_pos_left hBound wordBase_pos
      _ = wordBase ^ n * wordBase := mul_comm _ _
  have hRoomInt : (2 : ℤ) ^ shift * bound < (wordBase ^ n * wordBase : ℕ) := by exact_mod_cast hRoom
  exact ⟨hTotal, hTotal.trans_lt hRoomInt⟩

theorem abs_toInt_le (x : SignedInt n) : |x.toInt| ≤ (wordBase ^ n - 1 : ℕ) := by
  rw [Nat.cast_sub (Nat.pow_pos wordBase_pos), Nat.cast_one]
  exact Int.le_sub_one_of_lt x.abs_toInt_lt

/-- A row gives its quotient when that stays below the size of the limbs. -/
theorem lincombIntReduceShift_of_row {q : ℤ} (hPos : 0 < shift) (hLt : shift < 64)
    (hRow : |c.toInt| + |d.toInt| ≤ 2 ^ shift)
    (hExact : 2 ^ shift * q = c.toInt * a.toInt + d.toInt * b.toInt)
    (hq : |q| ≤ (wordBase ^ n - 1 : ℕ)) : (lincombIntReduceShift a b c d shift).toInt = q := by
  have hRoom := Nat.pow_pos (n := n) wordBase_pos
  have hTop : wordBase ^ n - 1 < wordBase ^ n := by omega
  have hFits := (combination_fits hLt hTop a.abs_toInt_le b.abs_toInt_le hRow).2
  apply lincombIntReduceShift_toInt hPos hLt hFits
  · rw [hExact]
    ring
  · rw [Nat.cast_sub hRoom, Nat.cast_one] at hq
    exact Int.lt_of_le_sub_one hq

theorem lincombIntReduceShiftMod_spec (hPos : 0 < shift) (hLt : shift < 64) (hn : 0 < n)
    (hInverse : mi.toNat * value m.1 % wordBase = 1) (hm : 0 < value m.1)
    (ha : |a.toInt| ≤ value m.1) (hb : |b.toInt| ≤ value m.1)
    (hRow : |c.toInt| + |d.toInt| ≤ 2 ^ shift) :
    2 ^ shift * (lincombIntReduceShiftMod a b c d shift m mi).toInt ≡
        c.toInt * a.toInt + d.toInt * b.toInt [ZMOD value m.1] ∧
      |(lincombIntReduceShiftMod a b c d shift m mi).toInt| < value m.1 := by
  obtain ⟨hTotal, hFits⟩ := combination_fits hLt (value_words_lt m) ha hb hRow
  have hValue := lincombInt_value hFits
  have hWide : wideValue (lincombInt a b c d).1 ≤ 2 ^ shift * value m.1 := by
    have hAbs := congrArg abs hValue
    rw [abs_signedValue] at hAbs
    have hSum := abs_add_le (a.toInt * c.toInt) (b.toInt * d.toInt)
    rw [abs_mul, abs_mul, ← hAbs] at hSum
    exact_mod_cast hSum.trans hTotal
  have hSpec := reduceShiftMod_spec (lincombInt a b c d).2 hPos hLt hn hInverse hm hWide
  rw [hValue, mul_comm a.toInt, mul_comm b.toInt] at hSpec
  exact hSpec

/-- A row that only scales the left part leaves it as it is. -/
theorem lincombIntReduceShiftMod_of_scale (hPos : 0 < shift) (hLt : shift < 64) (hn : 0 < n)
    (ha : |a.toInt| < value m.1) (hb : |b.toInt| ≤ value m.1) (hc : c.toInt = 2 ^ shift)
    (hd : d.toInt = 0) :
    (lincombIntReduceShiftMod a b c d shift m mi).toInt = a.toInt := by
  have hRow : |c.toInt| + |d.toInt| ≤ 2 ^ shift := by
    rw [hc, hd, abs_zero, add_zero, abs_of_nonneg (by positivity)]
  have hValue := lincombInt_value (combination_fits hLt (value_words_lt m) ha.le hb hRow).2
  rw [hc, hd, mul_zero, add_zero] at hValue
  have hMagnitude := congrArg Int.natAbs hValue
  rw [signedValue_natAbs, Int.natAbs_mul, Int.natAbs_pow, mul_comm] at hMagnitude
  change _ = 2 ^ shift * a.toInt.natAbs at hMagnitude
  have hSmall : a.toInt.natAbs < value m.1 := by
    rw [Int.abs_eq_natAbs] at ha
    exact_mod_cast ha
  have hOut : (reduceShiftMod (lincombInt a b c d).1 (lincombInt a b c d).2 shift m mi).toInt = _ :=
    reduceShiftMod_of_dvd _ hPos hLt hn hMagnitude hSmall
  rw [hMagnitude, signedValue_eq_mul, Nat.cast_mul] at hValue
  have hPower : ((2 ^ shift : ℕ) : ℤ) = 2 ^ shift := by push_cast; rfl
  rw [lincombIntReduceShiftMod, hOut, signedValue_eq_mul]
  apply mul_right_cancel₀ (show (2 : ℤ) ^ shift ≠ 0 by positivity)
  rw [← hValue, hPower]
  ring

end Combination

/-- The residue of the value with the sign of the greatest common divisor. -/
theorem norm_value {x : SignedInt n} {m : Uint n} (hx : |x.toInt| < value m.1) (fSign : Bool) :
    (value (x.norm fSign m).1 : ℤ) = signedValue fSign 1 * x.toInt % value m.1 := by
  have hSmall : value x.magnitude.1 < value m.1 := by
    rw [toInt, abs_signedValue] at hx
    exact_mod_cast hx
  have hSigned : signedValue fSign 1 * x.toInt =
      signedValue (fSign ^^ x.sign) (value x.magnitude.1) := by
    rw [toInt, ← signedValue_mul, one_mul]
  obtain ⟨-, hSub⟩ := m.borrowingSub_exact x.magnitude
  rw [decide_eq_false hSmall.not_gt, Bool.toNat_false, mul_zero, add_zero] at hSub
  rw [hSigned, norm]
  cases hSign : fSign ^^ x.sign with
  | false =>
    simp only [Bool.false_and, Uint.select, signedValue, Bool.false_eq_true, if_false]
    rw [Int.emod_eq_of_lt (by omega) (by exact_mod_cast hSmall)]
  | true =>
    simp only [Bool.true_and, signedValue, if_true]
    by_cases hZero : value x.magnitude.1 = 0
    · have hNone : x.isNonzero = false := by
        rw [isNonzero, (Uint.isZero_iff _).mpr hZero]
        rfl
      rw [hNone, Uint.select, if_neg Bool.false_ne_true, hZero]
      simp
    · have hSome : x.isNonzero = true := by
        rw [isNonzero, Bool.not_eq_true', Bool.eq_false_iff]
        exact mt (Uint.isZero_iff _).mp hZero
      rw [hSome, Uint.select, if_pos rfl, ← Int.add_emod_right,
        Int.emod_eq_of_lt (by omega) (by omega)]
      omega

theorem norm_lt {x : SignedInt n} {m : Uint n} (hm : 0 < value m.1) (hx : |x.toInt| < value m.1)
    (fSign : Bool) : value (x.norm fSign m).1 < value m.1 := by
  have hNorm := norm_value hx fSign
  have hLt := Int.emod_lt_of_pos (signedValue fSign 1 * x.toInt)
    (by omega : (0 : ℤ) < value m.1)
  rw [← hNorm] at hLt
  exact_mod_cast hLt

end SignedInt

theorem Uint.isZeroVartime_iff (x : Uint n) : x.isZeroVartime = true ↔ value x.1 = 0 := by
  rw [isZeroVartime, List.all_eq_true]
  constructor
  · intro h
    have hZero : ∀ word ∈ x.1, word = 0 := fun word hWord => eq_of_beq (h word hWord)
    rw [List.eq_replicate_of_mem hZero, value_replicate_zero]
  · intro h word hWord
    have hZero : x = zero := words_ext (by rw [h, value_zero])
    rw [hZero] at hWord
    rw [List.eq_of_mem_replicate hWord]
    rfl

namespace SafeGcd

section Loop

variable {a m e : Uint n} {mi : UInt64} {state : LoopState n} {s : State} {batch steps : ℕ}

/-- The integers of the loop at a state of the division steps on the modulus and the value. -/
structure Follows (a m e : Uint n) (state : LoopState n) (s : State) : Prop where
  delta : state.delta = .ofInt s.delta
  f : state.f.toInt = s.f
  g : state.g.toInt = s.g
  d : state.d.toInt * value a.1 ≡ value e.1 * s.f [ZMOD value m.1]
  e : state.e.toInt * value a.1 ≡ value e.1 * s.g [ZMOD value m.1]
  d_lt : |state.d.toInt| < value m.1
  e_le : |state.e.toInt| ≤ value m.1

theorem jump_vartime (vartime : Bool) : jump vartime = jump false := by
  have hSame : jumpStepVartime = jumpStep := funext fun s => (jumpStep_eq s).symm
  funext f g delta batch
  rw [jump, jump, hSame, ite_self, ite_self]

theorem runBatch_vartime (vartime : Bool) : runBatch vartime m mi state batch =
    runBatch false m mi state batch := by
  rw [runBatch, jump_vartime]
  rfl

/-- A batch on words. -/
theorem Follows.jump (h : Follows a m e state s) (hOdd : s.f % 2 = 1)
    (hDelta : |s.delta| + 124 < 2 ^ 62) (hBatch : batch ≤ 62) :
    jump false state.f.lowest state.g.lowest state.delta batch =
      (.ofInt (s.run batch).delta, .ofTransition (s.transition batch)) := by
  have hf := state.f.lowest_modEq
  have hg := state.g.lowest_modEq
  rw [h.f] at hf
  rw [h.g] at hg
  rw [h.delta]
  exact jump_exact false hf hg hOdd hDelta hBatch

theorem Follows.runBatch (h : Follows a m e state s) (hn : 0 < n)
    (hInverse : mi.toNat * value m.1 % wordBase = 1) (hm : value m.1 % 2 = 1)
    (hOdd : s.f % 2 = 1) (hDelta : |s.delta| + 124 < 2 ^ 62) (hPos : 0 < batch)
    (hBatch : batch ≤ 62) :
    Follows a m e (runBatch false m mi state batch) (s.run batch) := by
  have hJump := h.jump hOdd hDelta hBatch
  obtain ⟨hu, hv, hq, hr⟩ := transition_toInt s hBatch
  obtain ⟨hUpper, hLower⟩ := s.transition_le batch
  obtain ⟨hf, hg⟩ := s.transition_spec hOdd batch
  have hModulus : 0 < value m.1 := by omega
  have hSmall := s.run_abs_le (h.f ▸ state.f.abs_toInt_le) (h.g ▸ state.g.abs_toInt_le) batch
  have hReduce : ∀ {c d : Int64}, |c.toInt| + |d.toInt| ≤ 2 ^ batch →
      2 ^ batch * (SignedInt.lincombIntReduceShiftMod state.d state.e c d batch m mi).toInt ≡
          c.toInt * state.d.toInt + d.toInt * state.e.toInt [ZMOD value m.1] ∧
        |(SignedInt.lincombIntReduceShiftMod state.d state.e c d batch m mi).toInt| <
          value m.1 := fun hRow =>
    SignedInt.lincombIntReduceShiftMod_spec hPos (by omega) hn hInverse hModulus h.d_lt.le h.e_le
      hRow
  simp only [SafeGcd.runBatch, hJump, JumpMatrix.ofTransition, updateFg, updateDe]
  rw [← hu, ← hv] at hUpper
  rw [← hq, ← hr] at hLower
  have hUpperRow := hReduce hUpper
  have hLowerRow := hReduce hLower
  have hd := hUpperRow.1
  have he := hLowerRow.1
  rw [hu, hv] at hd
  rw [hq, hr] at he
  obtain ⟨hNextD, hNextE⟩ := State.transition_modEq hOdd (by omega) h.d h.e hd he
  exact
    { delta := rfl
      f := SignedInt.lincombIntReduceShift_of_row hPos (by omega) hUpper
        (by rw [hu, hv, hf, h.f, h.g]) hSmall.1
      g := SignedInt.lincombIntReduceShift_of_row hPos (by omega) hLower
        (by rw [hq, hr, hg, h.f, h.g]) hSmall.2
      d := hNextD
      e := hNextE
      d_lt := hUpperRow.2
      e_le := hLowerRow.2.le }

theorem Follows.runBatch_of_zero (h : Follows a m e state s) (hn : 0 < n) (hOdd : s.f % 2 = 1)
    (hDelta : |s.delta| + 124 < 2 ^ 62) (hPos : 0 < batch) (hBatch : batch ≤ 62) (hZero : s.g = 0) :
    (SafeGcd.runBatch false m mi state batch).d.toInt = state.d.toInt := by
  have hJump := h.jump hOdd hDelta hBatch
  obtain ⟨hu, hv, -, -⟩ := transition_toInt s hBatch
  rw [(State.run_of_zero hZero batch).2] at hu hv hJump
  simp only [SafeGcd.runBatch, hJump, JumpMatrix.ofTransition, updateDe]
  exact SignedInt.lincombIntReduceShiftMod_of_scale hPos (by omega) hn h.d_lt h.e_le hu hv

/-- The loop with some steps left. -/
structure Running (a m e : Uint n) (state : LoopState n) (s : State) (steps : ℕ) : Prop where
  follows : Follows a m e state s
  odd : s.f % 2 = 1
  delta_le : |s.delta| + 2 * steps + 124 < 2 ^ 62

theorem batch_bounds (hSteps : steps ≠ 0) : 0 < min steps gcdBatchSize ∧
    min steps gcdBatchSize ≤ 62 ∧ min steps gcdBatchSize ≤ steps :=
  ⟨lt_min (Nat.pos_of_ne_zero hSteps) (by decide), min_le_right _ _, min_le_left _ _⟩

theorem Running.runBatch (h : Running a m e state s steps) (hn : 0 < n)
    (hInverse : mi.toNat * value m.1 % wordBase = 1) (hm : value m.1 % 2 = 1)
    (hSteps : steps ≠ 0) :
    Running a m e (SafeGcd.runBatch false m mi state (min steps gcdBatchSize))
      (s.run (min steps gcdBatchSize)) (steps - min steps gcdBatchSize) := by
  obtain ⟨hPos, hBatch, hLe⟩ := batch_bounds hSteps
  have hDelta := h.delta_le
  have hRun := s.run_delta_le (min steps gcdBatchSize)
  have hNow : |s.delta| + 124 < 2 ^ 62 := by linarith
  refine ⟨h.follows.runBatch hn hInverse hm h.odd hNow hPos hBatch, State.run_odd h.odd _, ?_⟩
  rw [Nat.cast_sub hLe]
  linarith

/-- The induction over the batches of a loop. -/
theorem Running.induction
    {motive : ∀ state s steps, Running a m e state s steps → Prop} (hn : 0 < n)
    (hInverse : mi.toNat * value m.1 % wordBase = 1) (hm : value m.1 % 2 = 1)
    (done : ∀ state s h, motive state s 0 h)
    (next : ∀ state s steps hSteps h, motive _ _ _ (Running.runBatch h hn hInverse hm hSteps) →
      motive state s steps h)
    (state : LoopState n) (s : State) (steps : ℕ) (h : Running a m e state s steps) :
    motive state s steps h := by
  induction steps using Nat.strong_induction_on generalizing state s with
  | _ steps ih =>
    by_cases hSteps : steps = 0
    · subst hSteps
      exact done state s h
    · obtain ⟨hPos, -, hLe⟩ := batch_bounds hSteps
      exact next state s steps hSteps h (ih _ (by omega) _ _ _)

theorem mainLoop_zero (vartime : Bool) : mainLoop vartime m mi state 0 = state := by
  rw [mainLoop, if_pos rfl]

theorem mainLoop_step (vartime : Bool) (hSteps : steps ≠ 0)
    (hGoes : (vartime && state.g.magnitude.isZeroVartime) = false) :
    mainLoop vartime m mi state steps =
      mainLoop vartime m mi (SafeGcd.runBatch false m mi state (min steps gcdBatchSize))
        (steps - min steps gcdBatchSize) := by
  rw [mainLoop, if_neg hSteps, hGoes, if_neg Bool.false_ne_true, ← runBatch_vartime]

section Runs

variable (hn : 0 < n) (hInverse : mi.toNat * value m.1 % wordBase = 1) (hm : value m.1 % 2 = 1)
include hn hInverse hm

/-- The constant time loop runs all division steps. -/
theorem Running.mainLoop (h : Running a m e state s steps) :
    Follows a m e (mainLoop false m mi state steps) (s.run steps) := by
  induction state, s, steps, h using Running.induction hn hInverse hm with
  | done state s h =>
    rw [mainLoop_zero]
    exact h.follows
  | next state s steps hSteps h ih =>
    rw [mainLoop_step false hSteps (Bool.false_and _)]
    rwa [← State.run_add, Nat.add_sub_cancel' (batch_bounds hSteps).2.2] at ih

/-- Once the second integer is zero the integer that is carried along stays. -/
theorem Running.mainLoop_of_zero (h : Running a m e state s steps) (hZero : s.g = 0) :
    (SafeGcd.mainLoop false m mi state steps).d.toInt = state.d.toInt := by
  induction state, s, steps, h using Running.induction hn hInverse hm with
  | done state s h => rw [mainLoop_zero]
  | next state s steps hSteps h ih =>
    obtain ⟨hPos, hBatch, -⟩ := batch_bounds hSteps
    have hDelta := h.delta_le
    have hNow : |s.delta| + 124 < 2 ^ 62 := by linarith
    have hNextZero : (s.run (min steps gcdBatchSize)).g = 0 := by
      rw [(State.run_of_zero hZero _).1]
    rw [mainLoop_step false hSteps (Bool.false_and _), ih hNextZero]
    exact h.follows.runBatch_of_zero hn h.odd hNow hPos hBatch hZero

/-- Stopping at zero changes neither the divisor nor the integer that is carried along. -/
theorem Running.mainLoop_vartime (h : Running a m e state s steps) :
    (SafeGcd.mainLoop true m mi state steps).f.toInt =
        (SafeGcd.mainLoop false m mi state steps).f.toInt ∧
      (SafeGcd.mainLoop true m mi state steps).d.toInt =
        (SafeGcd.mainLoop false m mi state steps).d.toInt := by
  induction state, s, steps, h using Running.induction hn hInverse hm with
  | done state s h =>
    rw [mainLoop_zero, mainLoop_zero]
    exact ⟨rfl, rfl⟩
  | next state s steps hSteps h ih =>
    cases hStops : state.g.magnitude.isZeroVartime with
    | true =>
      have hZero : s.g = 0 := by
        rw [← h.follows.g, ← Int.natAbs_eq_zero, SignedInt.natAbs_toInt]
        exact state.g.magnitude.isZeroVartime_iff.mp hStops
      have hStay : SafeGcd.mainLoop true m mi state steps = state := by
        rw [SafeGcd.mainLoop, if_neg hSteps, hStops, Bool.true_and, if_pos rfl]
      rw [hStay, (h.mainLoop hn hInverse hm).f, h.mainLoop_of_zero hn hInverse hm hZero,
        (State.run_of_zero hZero steps).1]
      exact ⟨h.follows.f, rfl⟩
    | false =>
      rw [mainLoop_step true hSteps (by rw [hStops]; rfl),
        mainLoop_step false hSteps (Bool.false_and _)]
      exact ih

end Runs

/-- The state of the division steps on a modulus and a value. -/
def start (m a : Uint n) : State := ⟨1, value m.1, value a.1⟩

theorem running_start (he : value e.1 ≤ value m.1) (hm : value m.1 % 2 = 1)
    (hSteps : steps < 2 ^ 32) : Running a m e (loopStart a m e) (start m a) steps := by
  have hZero : (SignedInt.zero : SignedInt n).toInt = 0 := by
    rw [SignedInt.toInt, SignedInt.zero, SignedInt.fromUint, Uint.value_zero]
    rfl
  refine ⟨⟨rfl, rfl, rfl, ?_, ?_, ?_, ?_⟩, ?_, ?_⟩
  · change (SignedInt.zero : SignedInt n).toInt * _ ≡ value e.1 * (value m.1 : ℤ) [ZMOD _]
    rw [hZero, zero_mul]
    exact Int.modEq_iff_dvd.mpr ⟨value e.1, by ring⟩
  · exact Int.ModEq.refl _
  · change |(SignedInt.zero : SignedInt n).toInt| < _
    rw [hZero, abs_zero]
    omega
  · change |(value e.1 : ℤ)| ≤ value m.1
    rw [abs_of_nonneg (Nat.cast_nonneg _)]
    exact_mod_cast he
  · change (value m.1 : ℤ) % 2 = 1
    omega
  · change |(1 : ℤ)| + 2 * steps + 124 < 2 ^ 62
    rw [abs_one]
    omega

theorem iterations_lt (bits : ℕ) : iterations bits < 2 ^ 32 :=
  (Nat.div_le_self _ _).trans_lt (Nat.mod_lt _ (by decide))

/-- An odd integer has a limb. -/
theorem limbs_pos (hm : value m.1 % 2 = 1) : 0 < n := by
  rw [Nat.pos_iff_ne_zero]
  rintro rfl
  have hLt := value_words_lt m
  rw [pow_zero] at hLt
  omega

end Loop

section Inversion

variable {a e : Uint n} {m : OddUint n} {mi : UInt64}

theorem value_one (hn : 0 < n) : value (Uint.ofNat n 1).1 = 1 := by
  rw [value_ofNat, Nat.mod_eq_of_lt (Nat.one_lt_pow hn.ne' (by decide))]

section Final

variable {m : Uint n} {state : LoopState n} {s : State}

theorem Follows.divisor_eq_one (h : Follows a m e state s) (hn : 0 < n) :
    state.f.magnitude.eq (.ofNat n 1) = true ↔ s.f.natAbs = 1 := by
  rw [Uint.eq_iff, ← h.f, SignedInt.natAbs_toInt]
  exact ⟨fun hEq => (congrArg (fun x => value x.1) hEq).trans (value_one hn),
    fun hEq => words_ext (hEq.trans (value_one hn).symm)⟩

/-- With a divisor of one the normalized integer is the inverse, times the adjuster. -/
theorem Follows.norm_modEq (h : Follows a m e state s) (hUnit : s.f.natAbs = 1) :
    value (state.d.norm state.f.sign m).1 * value a.1 ≡ value e.1 [MOD value m.1] := by
  have hNorm := SignedInt.norm_value h.d_lt state.f.sign
  have hSign : signedValue state.f.sign 1 = s.f := by
    rw [← h.f, SignedInt.toInt, ← SignedInt.natAbs_toInt, h.f, hUnit]
  have hSquare : s.f * s.f = 1 := by
    rcases Int.natAbs_eq s.f with hEq | hEq <;> rw [hEq, hUnit] <;> rfl
  rw [hSign] at hNorm
  apply Int.natCast_modEq_iff.mp
  rw [Nat.cast_mul, hNorm]
  calc
    _ ≡ s.f * state.d.toInt * value a.1 [ZMOD value m.1] := (Int.mod_modEq _ _).mul_right _
    _ = s.f * (state.d.toInt * value a.1) := mul_assoc _ _ _
    _ ≡ s.f * (value e.1 * s.f) [ZMOD value m.1] := h.d.mul_left _
    _ = value e.1 := by linear_combination (value e.1 : ℤ) * hSquare

end Final

theorem signedValue_sign {s t : Bool} {k : ℕ} (hk : k ≠ 0)
    (h : signedValue s k = signedValue t k) : s = t := by
  cases s <;> cases t <;> simp only [signedValue, Bool.false_eq_true, if_false, if_true] at h
  · rfl
  · omega
  · omega
  · rfl

/-- The variable time inversion returns what the constant time inversion returns. -/
theorem invertOddModPrecomp_vartime (hInverse : mi.toNat * value m.1.1 % wordBase = 1)
    (he : value e.1 ≤ value m.1.1) :
    invertOddModPrecomp true a m mi e = invertOddModPrecomp false a m mi e := by
  have hn := limbs_pos m.2
  have hStart := running_start (a := a) he m.2 (iterations_lt (64 * n))
  obtain ⟨hf, hd⟩ := hStart.mainLoop_vartime hn hInverse m.2
  have hFollows := hStart.mainLoop hn hInverse m.2
  have hOdd := State.run_odd hStart.odd (iterations (64 * n))
  rw [← hFollows.f] at hOdd
  have hBound := hFollows.d_lt
  simp only [invertOddModPrecomp]
  generalize mainLoop true m.1 mi (loopStart a m.1 e) (iterations (64 * n)) = quick at hf hd
  generalize mainLoop false m.1 mi (loopStart a m.1 e) (iterations (64 * n)) = full at hf hd hOdd hBound
  have hMagnitude : quick.f.magnitude = full.f.magnitude := by
    apply words_ext
    rw [← SignedInt.natAbs_toInt, ← SignedInt.natAbs_toInt, hf]
  have hSign : quick.f.sign = full.f.sign := by
    have hNonzero : value full.f.magnitude.1 ≠ 0 := by
      rw [← SignedInt.natAbs_toInt]
      omega
    rw [SignedInt.toInt, SignedInt.toInt, hMagnitude] at hf
    exact signedValue_sign hNonzero hf
  have hNorm : quick.d.norm quick.f.sign m.1 = full.d.norm full.f.sign m.1 := by
    apply words_ext
    have hQuick := SignedInt.norm_value (hd ▸ hBound) quick.f.sign
    have hFull := SignedInt.norm_value hBound full.f.sign
    rw [hd, hSign] at hQuick
    rw [hSign]
    exact_mod_cast hQuick.trans hFull.symm
  rw [hMagnitude, hNorm]

/-- The inversion against the division steps on the whole integers. -/
theorem invertOddModPrecomp_exact (hInverse : mi.toNat * value m.1.1 % wordBase = 1)
    (he : value e.1 ≤ value m.1.1) :
    let final := (start m.1 a).run (iterations (64 * n))
    let result := invertOddModPrecomp false a m mi e
    (result.isSome = true ↔ value a.1 ≠ 0 ∧ final.f.natAbs = 1) ∧
      (result.isSome = true → value result.value.1 * value a.1 ≡ value e.1 [MOD value m.1.1]) ∧
      value result.value.1 < value m.1.1 ∧ (value a.1 = 0 → value result.value.1 = 0) := by
  intro final result
  have hn := limbs_pos m.2
  have hm : 0 < value m.1.1 := by
    have hOdd := m.2
    omega
  have hStart := running_start (a := a) he m.2 (iterations_lt (64 * n))
  have hFollows := hStart.mainLoop hn hInverse m.2
  have hPresent : result.isSome = true ↔ value a.1 ≠ 0 ∧ final.f.natAbs = 1 := by
    have hUnfold : result.isSome = ((mainLoop false m.1 mi (loopStart a m.1 e)
      (iterations (64 * n))).f.magnitude.eq (.ofNat n 1) && !a.isZero) := rfl
    rw [hUnfold, Bool.and_eq_true, hFollows.divisor_eq_one hn, Bool.not_eq_true',
      Bool.eq_false_iff, ne_eq, Uint.isZero_iff, and_comm]
  refine ⟨hPresent, fun hSome => hFollows.norm_modEq (hPresent.mp hSome).2,
    SignedInt.norm_lt hm hFollows.d_lt _, ?_⟩
  intro hZero
  have hNorm := SignedInt.norm_value hFollows.d_lt
    (mainLoop false m.1 mi (loopStart a m.1 e) (iterations (64 * n))).f.sign
  have hStay := hStart.mainLoop_of_zero hn hInverse m.2 (by
    change (value a.1 : ℤ) = 0
    rw [hZero, Nat.cast_zero])
  have hNone : (loopStart a m.1 e).d.toInt = 0 := by
    change signedValue false (value (Uint.zero : Uint n).1) = 0
    rw [Uint.value_zero]
    rfl
  rw [hStay, hNone, mul_zero, Int.zero_emod] at hNorm
  exact_mod_cast hNorm

end Inversion

end SafeGcd

end X301Provider.BigInt
