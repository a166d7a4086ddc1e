import X301Provider.BigInt.SafeGcd
import X301Provider.Library.DivisionSteps

/-!
# A batch of division steps on words

The words of a batch lose one bit of both integers in every step. They start with 63 bits, so the
matrix of up to 62 steps is that of the whole integers, and its entries never wrap. Both versions
of a step are one function.
-/

namespace X301Provider.BigInt

open DivisionSteps

theorem toInt_shiftRight_one (x : Int64) : (x >>> 1).toInt = x.toInt / 2 := by
  change (x.toBitVec.sshiftRight' ((1 : Int64).toBitVec.smod 64)).toInt = _
  rw [BitVec.toInt_sshiftRight', Int.shiftRight_eq_div_pow]
  rfl

theorem shiftRight_sign (x : Int64) : x >>> 63 = if 0 ≤ x.toInt then 0 else -1 := by
  have hValue : (x >>> 63).toInt = x.toInt / 2 ^ 63 := by
    change (x.toBitVec.sshiftRight' ((63 : Int64).toBitVec.smod 64)).toInt = _
    rw [BitVec.toInt_sshiftRight', Int.shiftRight_eq_div_pow]
    rfl
  have hLow := x.le_toInt
  have hHigh := x.toInt_lt
  split_ifs with hSign
  · apply Int64.toInt_inj.mp
    rw [hValue, Int64.toInt_zero]
    omega
  · apply Int64.toInt_inj.mp
    have hMinus : (-1 : Int64).toInt = -1 := rfl
    rw [hValue, hMinus]
    omega

theorem isPositive_eq (x : Int64) :
    ((x &&& ~~~(x >>> 63)).toUInt64 != 0) = decide (0 < x.toInt) := by
  have hZero : x.toUInt64 = 0 ↔ x.toInt = 0 := by
    constructor
    · intro h
      have hBits : x.toBitVec = 0#64 := congrArg UInt64.toBitVec h
      have hx : x = 0 := Int64.toBitVec.inj hBits
      rw [hx]
      rfl
    · intro h
      have hx : x = 0 := Int64.toInt_inj.mp h
      rw [hx]
      rfl
  rw [shiftRight_sign]
  split_ifs with hSign
  · have hSelf : x &&& ~~~0 = x := by
      rw [Int64.not_zero, Int64.and_neg_one]
    rw [hSelf, Bool.eq_iff_iff, bne_iff_ne, ne_eq, hZero, decide_eq_true_eq]
    omega
  · have hNone : (x &&& ~~~(-1)).toUInt64 = 0 := by
      rw [Int64.not_neg_one, Int64.and_zero]
      rfl
    rw [hNone, decide_eq_false (by omega)]
    rfl

theorem bmod_modEq (value : ℤ) : value.bmod (2 ^ 64) ≡ value [ZMOD 2 ^ 64] := by
  have hMod := Int.bmod_emod (x := value) (m := 2 ^ 64)
  rw [Nat.cast_pow, Nat.cast_ofNat] at hMod
  exact hMod

theorem toInt_modEq (x : Int64) : x.toInt ≡ x.toUInt64.toNat [ZMOD 2 ^ 64] := by
  have hValue : x.toInt = (x.toUInt64.toNat : ℤ).bmod (2 ^ 64) := BitVec.toInt_eq_toNat_bmod _
  rw [hValue]
  exact bmod_modEq _

theorem modEq_of_le {a b : ℤ} {low high : ℕ} (hLe : low ≤ high) (h : a ≡ b [ZMOD 2 ^ high]) :
    a ≡ b [ZMOD 2 ^ low] := h.of_dvd (pow_dvd_pow 2 hLe)

theorem parity_eq {a b : ℤ} {bits : ℕ} (h : a ≡ b [ZMOD 2 ^ (bits + 1)]) : a % 2 = b % 2 := by
  have hTwo := modEq_of_le (Nat.le_add_left 1 bits) h
  rw [pow_one] at hTwo
  exact hTwo

theorem half_modEq {a b : ℤ} {bits : ℕ} (h : a ≡ b [ZMOD 2 ^ (bits + 1)]) (hEven : b % 2 = 0) :
    a / 2 ≡ b / 2 [ZMOD 2 ^ bits] := by
  have hParity := parity_eq h
  obtain ⟨factor, hFactor⟩ := h.dvd
  apply Int.modEq_iff_dvd.mpr
  refine ⟨factor, ?_⟩
  rw [pow_succ, mul_right_comm] at hFactor
  omega

theorem and_one_eq (x : Int64) : x &&& 1 = if x.toInt % 2 = 1 then 1 else 0 := by
  have hNat : (x &&& 1).toBitVec.toNat = x.toUInt64.toNat % 2 := by
    change (x.toBitVec &&& 1#64).toNat = _
    rw [BitVec.toNat_and]
    exact Nat.and_one_is_mod _
  have hParity : x.toInt % 2 = (x.toUInt64.toNat : ℤ) % 2 := parity_eq (toInt_modEq x)
  apply Int64.toBitVec.inj
  apply BitVec.eq_of_toNat_eq
  rw [hNat]
  split_ifs with hOdd
  · change _ = 1
    omega
  · change _ = 0
    omega

namespace SafeGcd

section Step

variable {s : JumpState}

theorem jumpStepVartime_swap (hOdd : s.g.toInt % 2 = 1) (hDelta : 0 < s.delta) :
    jumpStepVartime s = ⟨s.g, (s.g - s.f) >>> 1, 2 - s.delta, s.t.t10 <<< 1, s.t.t11 <<< 1,
      s.t.t10 - s.t.t00, s.t.t11 - s.t.t01⟩ := by
  have hBit : ((1 : Int64) != 0) = true := rfl
  simp only [jumpStepVartime, and_one_eq, hOdd, hBit, hDelta, if_true]

theorem jumpStepVartime_odd (hOdd : s.g.toInt % 2 = 1) (hDelta : ¬0 < s.delta) :
    jumpStepVartime s = ⟨s.f, (s.g + s.f) >>> 1, 2 + s.delta, s.t.t00 <<< 1, s.t.t01 <<< 1,
      s.t.t10 + s.t.t00, s.t.t11 + s.t.t01⟩ := by
  have hBit : ((1 : Int64) != 0) = true := rfl
  simp only [jumpStepVartime, and_one_eq, hOdd, hBit, hDelta, if_true, if_false]

theorem jumpStepVartime_even (hEven : ¬s.g.toInt % 2 = 1) :
    jumpStepVartime s = ⟨s.f, s.g >>> 1, 2 + s.delta, s.t.t00 <<< 1, s.t.t01 <<< 1, s.t.t10,
      s.t.t11⟩ := by
  have hBit : ((0 : Int64) != 0) = false := rfl
  simp only [jumpStepVartime, and_one_eq, hEven, hBit, if_false, Bool.false_eq_true]

/-- The two versions of a step agree on all words. -/
theorem jumpStep_eq (s : JumpState) : jumpStep s = jumpStepVartime s := by
  have hOne : lsb (1 : Int64).toUInt64 = true := rfl
  have hZero : lsb (0 : Int64).toUInt64 = false := rfl
  have hLt : 0 < s.delta.toInt ↔ 0 < s.delta := by
    rw [Int64.lt_iff_toInt_lt, Int64.toInt_zero]
  by_cases hOdd : s.g.toInt % 2 = 1
  · by_cases hDelta : 0 < s.delta
    · rw [jumpStepVartime_swap hOdd hDelta]
      simp only [jumpStep, isPositive_eq, and_one_eq, hOdd, hLt, hDelta, hOne, decide_true,
        Bool.and_true, selectI64, if_true, Int64.sub_eq_add_neg]
    · rw [jumpStepVartime_odd hOdd hDelta]
      simp only [jumpStep, isPositive_eq, and_one_eq, hOdd, hLt, hDelta, hOne, decide_false,
        Bool.false_and, selectI64, if_true, if_false, Bool.false_eq_true]
  · rw [jumpStepVartime_even hOdd]
    simp only [jumpStep, and_one_eq, hOdd, hZero, Bool.and_false, selectI64, if_false,
      Bool.false_eq_true, Int64.add_zero]

end Step

/-- The entries of a combination as words. -/
def JumpMatrix.ofTransition (t : Transition) : JumpMatrix :=
  ⟨.ofInt t.u, .ofInt t.v, .ofInt t.q, .ofInt t.r⟩

/-- Words that stand for a state: of the two integers only low bits are right. -/
structure JumpState.Holds (w : JumpState) (s : State) (t : Transition) (bits : ℕ) : Prop where
  delta : w.delta = .ofInt s.delta
  f : w.f.toInt ≡ s.f [ZMOD 2 ^ bits]
  g : w.g.toInt ≡ s.g [ZMOD 2 ^ bits]
  t : w.t = .ofTransition t

theorem shiftLeft_one_ofInt (a : ℤ) : Int64.ofInt a <<< 1 = .ofInt (2 * a) := by
  have hDouble : ∀ x : Int64, x <<< 1 = x * 2 := by
    intro x
    apply Int64.toBitVec.inj
    change x.toBitVec <<< 1 = x.toBitVec * BitVec.twoPow 64 1
    exact BitVec.shiftLeft_eq_mul_twoPow x.toBitVec 1
  rw [hDouble, mul_comm 2, Int64.ofInt_mul]
  rfl

theorem half_toInt_modEq {x : Int64} {a : ℤ} {bits : ℕ} (h : x.toInt ≡ a [ZMOD 2 ^ (bits + 1)])
    (hEven : a % 2 = 0) : (x >>> 1).toInt ≡ a / 2 [ZMOD 2 ^ bits] := by
  rw [toInt_shiftRight_one]
  exact half_modEq h hEven

section Steps

variable {w : JumpState} {s : State} {t : Transition} {bits : ℕ}

theorem JumpState.Holds.step (h : w.Holds s t (bits + 1)) (hBits : bits + 1 ≤ 64)
    (hOdd : s.f % 2 = 1) (hDelta : |s.delta| < 2 ^ 62) :
    (jumpStep w).Holds s.step (t.next s) bits := by
  have hParity : w.g.toInt % 2 = s.g % 2 := parity_eq h.g
  have hPositive : 0 < w.delta ↔ 0 < s.delta := by
    rw [abs_lt] at hDelta
    rw [Int64.lt_iff_toInt_lt, h.delta, Int64.toInt_zero,
      Int64.toInt_ofInt_of_le (by omega) (by omega)]
  have hSum : (w.g + w.f).toInt ≡ s.g + s.f [ZMOD 2 ^ (bits + 1)] := by
    rw [Int64.toInt_add]
    exact (modEq_of_le hBits (bmod_modEq _)).trans (h.g.add h.f)
  have hDifference : (w.g - w.f).toInt ≡ s.g - s.f [ZMOD 2 ^ (bits + 1)] := by
    rw [Int64.toInt_sub]
    exact (modEq_of_le hBits (bmod_modEq _)).trans (h.g.sub h.f)
  have hTwo : (2 : Int64) = .ofInt 2 := rfl
  have hLow := Nat.le_add_right bits 1
  rw [jumpStep_eq]
  obtain ⟨hg, hPos, hStep, hNext⟩ | ⟨hg, hNeg, hStep, hNext⟩ | ⟨hg, hStep, hNext⟩ := s.step_cases
  · rw [jumpStepVartime_swap (hParity.trans hg) (hPositive.mpr hPos), hStep, hNext]
    simp only [h.delta, h.t, JumpMatrix.ofTransition, shiftLeft_one_ofInt, hTwo, ← Int64.ofInt_sub]
    exact ⟨rfl, modEq_of_le hLow h.g, half_toInt_modEq hDifference (by omega), rfl⟩
  · rw [jumpStepVartime_odd (hParity.trans hg) (mt hPositive.mp hNeg), hStep, hNext]
    simp only [h.delta, h.t, JumpMatrix.ofTransition, shiftLeft_one_ofInt, hTwo, ← Int64.ofInt_add]
    exact ⟨rfl, modEq_of_le hLow h.f, half_toInt_modEq hSum (by omega), rfl⟩
  · rw [jumpStepVartime_even (by omega), hStep, hNext]
    simp only [h.delta, h.t, JumpMatrix.ofTransition, shiftLeft_one_ofInt, hTwo, ← Int64.ofInt_add]
    exact ⟨rfl, modEq_of_le hLow h.f, half_toInt_modEq h.g hg, rfl⟩

/-- One bit is lost in every step. -/
theorem JumpState.Holds.run (h : w.Holds s .identity 63) (hOdd : s.f % 2 = 1)
    (hDelta : |s.delta| + 124 < 2 ^ 62) {n : ℕ} (hn : n ≤ 62) :
    (jumpStep^[n] w).Holds (s.run n) (s.transition n) (63 - n) := by
  induction n with
  | zero => exact h
  | succ n ih =>
    have hHolds := ih (by omega)
    have hBits : 63 - n = 63 - (n + 1) + 1 := by omega
    rw [hBits] at hHolds
    rw [Function.iterate_succ_apply', State.run_succ, State.transition]
    apply hHolds.step (by omega) (State.run_odd hOdd n)
    have hRun := s.run_delta_le n
    have hCount : (n : ℤ) ≤ 62 := by omega
    linarith

end Steps

/-- A batch of up to 62 steps on the low 63 bits gives the counter and the matrix of the steps on
the whole integers, in the constant and in the variable time version. -/
theorem jump_exact (vartime : Bool) {f g : Int64} {s : State} {batch : ℕ}
    (hf : f.toInt ≡ s.f [ZMOD 2 ^ 63]) (hg : g.toInt ≡ s.g [ZMOD 2 ^ 63]) (hOdd : s.f % 2 = 1)
    (hDelta : |s.delta| + 124 < 2 ^ 62) (hBatch : batch ≤ 62) :
    jump vartime f g (.ofInt s.delta) batch =
      (.ofInt (s.run batch).delta, .ofTransition (s.transition batch)) := by
  have hVersion : (if vartime then jumpStepVartime else jumpStep) = jumpStep := by
    have hSame : jumpStepVartime = jumpStep := funext fun s => (jumpStep_eq s).symm
    rw [hSame, ite_self]
  have hStart : JumpState.Holds ⟨f, g, .ofInt s.delta, 1, 0, 0, 1⟩ s .identity 63 :=
    ⟨rfl, hf, hg, rfl⟩
  have hHolds := hStart.run hOdd hDelta hBatch
  rw [jump, hVersion]
  exact Prod.ext hHolds.delta hHolds.t

/-- The entries of the matrix of a batch fit. -/
theorem transition_toInt (s : State) {batch : ℕ} (hBatch : batch ≤ 62) :
    let t := s.transition batch
    (Int64.ofInt t.u).toInt = t.u ∧ (Int64.ofInt t.v).toInt = t.v ∧
      (Int64.ofInt t.q).toInt = t.q ∧ (Int64.ofInt t.r).toInt = t.r := by
  intro t
  have hPow : (2 : ℤ) ^ batch ≤ 2 ^ 62 := pow_le_pow_right₀ (by decide) hBatch
  obtain ⟨hUpper, hLower⟩ := s.transition_le batch
  have hFits : ∀ a b : ℤ, |a| + |b| ≤ 2 ^ batch →
      (Int64.ofInt a).toInt = a ∧ (Int64.ofInt b).toInt = b := by
    intro a b h
    have ha := abs_nonneg a
    have hb := abs_nonneg b
    have haBounds := abs_le.mp (show |a| ≤ 2 ^ 62 by linarith)
    have hbBounds := abs_le.mp (show |b| ≤ 2 ^ 62 by linarith)
    exact ⟨Int64.toInt_ofInt_of_le (by omega) (by omega),
      Int64.toInt_ofInt_of_le (by omega) (by omega)⟩
  exact ⟨(hFits _ _ hUpper).1, (hFits _ _ hUpper).2, (hFits _ _ hLower).1, (hFits _ _ hLower).2⟩

end SafeGcd

end X301Provider.BigInt
