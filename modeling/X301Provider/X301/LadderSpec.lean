import X301Provider.Curve
import X301Provider.Field.Codec
import X301Provider.Library.LadderRun
import X301Provider.X301.Ladder

/-!
# The limb ladder follows the field ladder

The clamped scalar is a multiple of four between `2 ^ 300` and `2 ^ 301`. Each
loop iteration of the limb ladder is one step of the field ladder, so the output
is a projective `u`-coordinate of the multiple by the clamped scalar.
-/

namespace X301Provider

open Limbs MontgomeryCurve

namespace X301

/-- The integer read from a clamped secret. -/
def clampedValue (n : ℕ) : ℕ := 2 ^ 300 + n % 2 ^ 300 / 4 * 4

/-- The field element read from a public encoding: its low 301 bits, reduced. -/
def decodedU (bytes : Bytes 38) : Fp := ((bytesValue bytes.1 % 2 ^ 301 : ℕ) : Fp)

theorem decodedU_baseUBytes : decodedU baseUBytes = (baseU : Fp) := by
  have hValue : bytesValue baseUBytes.1 % 2 ^ 301 = baseU := by decide +kernel
  rw [decodedU, hValue]

theorem clampedValue_bounds (n : ℕ) :
    2 ^ 300 ≤ clampedValue n ∧ clampedValue n < 2 ^ 301 ∧ 4 ∣ clampedValue n := by
  have hPower : (2 : ℕ) ^ 300 = 4 * 2 ^ 298 := pow_add 2 2 298
  have hDouble : (2 : ℕ) ^ 301 = 2 * 2 ^ 300 := pow_succ' 2 300
  have hMod := Nat.mod_lt n (Nat.two_pow_pos 300)
  generalize hQ : n % 2 ^ 300 = q at *
  refine ⟨?_, ?_, ?_⟩
  · rw [clampedValue]
    exact Nat.le_add_right _ _
  · rw [clampedValue, hQ]
    omega
  · rw [clampedValue, hPower]
    exact (Dvd.intro _ rfl).add (Dvd.intro_left _ rfl)

set_option maxRecDepth 100000 in
theorem clearLowBits_toNat (byte : UInt8) : (byte &&& 0xfc).toNat = byte.toNat / 4 * 4 := by
  have hMask : ∀ n < 256, n &&& 252 = n / 4 * 4 := by decide
  rw [UInt8.toNat_and]
  exact hMask byte.toNat byte.toNat_lt

set_option maxRecDepth 100000 in
theorem setTopBit_toNat (byte : UInt8) :
    ((byte &&& 0x0f) ||| 0x10).toNat = byte.toNat % 16 + 16 := by
  have hMask : ∀ n < 256, (n &&& 15) ||| 16 = n % 16 + 16 := by decide
  rw [UInt8.toNat_or, UInt8.toNat_and]
  exact hMask byte.toNat byte.toNat_lt

theorem clampedValue_split {first rest : ℕ} (top : ℕ) (hPrefix : first + 256 * rest < 256 ^ 37) :
    clampedValue (first + 256 * rest + 256 ^ 37 * top) =
      first / 4 * 4 + 256 * rest + 256 ^ 37 * (top % 16 + 16) := by
  have hPower : (2 : ℕ) ^ 300 = 256 ^ 37 * 16 := two_pow_bytes 37 4
  have hFour : (256 : ℕ) ^ 37 = 4 * (256 ^ 36 * 64) := by
    rw [pow_succ]
    omega
  rw [clampedValue, hPower, Nat.mod_mul, Nat.add_mul_mod_self_left, Nat.mod_eq_of_lt hPrefix,
    Nat.add_mul_div_left _ _ (by decide), Nat.div_eq_of_lt hPrefix, zero_add, mul_add]
  generalize top % 16 = low
  rw [hFour, mul_assoc 4 _ low, mul_assoc 4 _ 16]
  generalize 256 ^ 36 * 64 * low = high
  omega

theorem bytesValue_clampScalar (input : Bytes 38) :
    bytesValue (clampScalar input).1 = clampedValue (bytesValue input.1) := by
  have hPrefix := bytesValue_lt (input.1.take 37)
  have hInput := bytesValue_split_last input
  have hLength : (input.1.take 37).length = 37 := by
    rw [List.length_take, input.2]
    decide
  have hTake : input.1.take 37 = input.head :: input.1.tail.take 36 := by
    obtain ⟨list, hList⟩ := input
    cases list with
    | nil => cases hList
    | cons first rest => rfl
  have hLast : ((input.head &&& 0xfc) ::ᵥ input.tail : Bytes 38).get 37 = input.get 37 := by
    obtain ⟨list, hList⟩ := input
    cases list with
    | nil => cases hList
    | cons first rest => rfl
  have hClamped : bytesValue (clampScalar input).1 =
      bytesValue ((input.head &&& 0xfc) :: input.1.tail.take 36) +
        256 ^ 37 * ((input.get 37 &&& 0x0f) ||| 0x10).toNat := by
    rw [← hLast]
    obtain ⟨list, hList⟩ := input
    cases list with
    | nil => cases hList
    | cons first rest => exact Fe301.bytesValue_modifyLast _ _
  rw [hLength] at hPrefix
  rw [hTake, bytesValue_cons] at hPrefix hInput
  rw [hClamped, setTopBit_toNat, bytesValue_cons, clearLowBits_toNat, hInput,
    clampedValue_split _ hPrefix]

theorem scalarBit_eq (scalar : Bytes 38) (i : ℕ) :
    scalarBit scalar i = (bytesValue scalar.1).testBit i := by
  have hShift : i >>> 3 = i / 8 := Nat.shiftRight_eq_div_pow i 3
  have hMask : i &&& 7 = i % 8 := Nat.and_two_pow_sub_one_eq_mod i 3
  have hRest : i % 8 < 8 := Nat.mod_lt i (by decide)
  have hAmount : (UInt8.ofNat (i % 8)).toNat % 8 = i % 8 := by
    rw [UInt8.toNat_ofNat']
    omega
  have hByte : ((scalar.1.getD (i / 8) 0 >>> UInt8.ofNat (i % 8)) &&& 1).toNat =
      bytesValue scalar.1 / 2 ^ i % 2 := by
    have hOne : (1 : UInt8).toNat = 1 := rfl
    have hSplit : i = 8 * (i / 8) + i % 8 := (Nat.div_add_mod i 8).symm
    have hWidth : 256 = 2 ^ (i % 8) * (2 * 2 ^ (7 - i % 8)) := by
      rw [← pow_succ', ← pow_add]
      have hEight : i % 8 + (7 - i % 8 + 1) = 8 := by omega
      rw [hEight]
      rfl
    rw [UInt8.toNat_and, UInt8.toNat_shiftRight, hAmount, hOne, Nat.and_one_is_mod,
      Nat.shiftRight_eq_div_pow, ← byteAt_eq]
    conv_rhs => rw [hSplit, pow_add, ← Nat.div_div_eq_div_mul]
    generalize bytesValue scalar.1 / 2 ^ (8 * (i / 8)) = rest
    rw [hWidth, Nat.mod_mul_right_div_self, Nat.mod_mul_right_mod]
  rw [scalarBit, hShift, hMask, Nat.testBit_eq_decide_div_mod_eq, ← hByte, Bool.eq_iff_iff,
    beq_iff_eq, decide_eq_true_eq, ← UInt8.toNat_inj]
  rfl

/-- The factor carried by both outputs of a doubling. -/
abbrev ladderScale : Fp := (a24Denominator.toNat : Fp)

abbrev ladderConstant : Fp := (a24Numerator.toNat : Fp)

theorem ladderScale_ne_zero : ladderScale ≠ 0 := a24Denominator_ne_zero

theorem ladderConstant_eq {M : MontgomeryCurve Fp} (hA : M.A = E.montgomery.A) :
    4 * ladderConstant = ladderScale * (M.A - 2) := by
  rw [hA]
  exact montgomery_a24

theorem doubleScaled_repr {x z : Fe301Lazy} {X Z : Fp} (hx : x.Repr X) (hz : z.Repr Z) :
    (doubleScaled x z).1.Repr (double ladderScale ladderConstant X Z).1 ∧
      (doubleScaled x z).2.Repr (double ladderScale ladderConstant X Z).2 := by
  have haa := (hx.addLoose hz).square
  have hbb := (hx.subLoose hz).square
  have he := haa.subLoose hbb
  have hScaled := haa.mulSmall a24Denominator
  have hNextX := hScaled.mul hbb
  have hNextZ := he.mul (hScaled.addLoose (he.mulSmall a24Numerator))
  simp only [double]
  rw [mul_comm ladderScale, mul_comm ladderConstant]
  exact ⟨hNextX, hNextZ⟩

/-- The limbs of a ladder state denote registers over the base coordinate. -/
structure LadderState.Repr (state : LadderState) (u : Fp) (s : Registers Fp) : Prop where
  x1 : state.x1.Repr u
  x2 : state.x2.Repr s.x₂
  z2 : state.z2.Repr s.z₂
  x3 : state.x3.Repr s.x₃
  z3 : state.z3.Repr s.z₃

theorem LadderState.Repr.conditionalSwap {state : LadderState} {u : Fp} {s : Registers Fp}
    (h : state.Repr u s) (choice : Bool) :
    (state.conditionalSwap choice).Repr u (s.conditionalSwap choice) := by
  cases choice with
  | false => exact h
  | true => exact ⟨h.x1, h.x3, h.z3, h.x2, h.z2⟩

theorem LadderState.Repr.round {state : LadderState} {u : Fp} {s : Registers Fp}
    (h : state.Repr u s) :
    (ladderRound state).Repr u (s.round ladderScale ladderConstant u) := by
  obtain ⟨hDoubleX, hDoubleZ⟩ := doubleScaled_repr h.x2 h.z2
  have ha := h.x2.addLoose h.z2
  have hb := h.x2.subLoose h.z2
  have hda := (h.x3.subLoose h.z3).mul ha
  have hcb := (h.x3.addLoose h.z3).mul hb
  have hNextX := (hda.addLoose hcb).square
  have hNextZ := h.x1.mul (hda.subLoose hcb).square
  have hRound : ladderRound state =
      ⟨state.x1, (doubleScaled state.x2 state.z2).1, (doubleScaled state.x2 state.z2).2,
        _, _⟩ := rfl
  rw [hRound]
  exact ⟨h.x1, hDoubleX, hDoubleZ, hNextX, hNextZ⟩

/-- A loop value denotes registers with the same pending swap. -/
def LoopRepr (loop : LadderState × Bool) (u : Fp) (s : Registers Fp × Bool) : Prop :=
  loop.1.Repr u s.1 ∧ loop.2 = s.2

theorem LoopRepr.step {loop : LadderState × Bool} {u : Fp} {s : Registers Fp × Bool}
    (h : LoopRepr loop u s) (scalar : Bytes 38) (i : ℕ) :
    LoopRepr (ladderStep scalar loop i) u
      (Registers.step ladderScale ladderConstant u s (scalarBit scalar i)) := by
  obtain ⟨state, swap⟩ := loop
  obtain ⟨registers, pending⟩ := s
  obtain ⟨hState, rfl⟩ := h
  exact ⟨(hState.conditionalSwap _).round, rfl⟩

theorem LoopRepr.run {u : Fp} (scalar : Bytes 38) (indices : List ℕ)
    {loop : LadderState × Bool} {s : Registers Fp × Bool} (h : LoopRepr loop u s) :
    LoopRepr (indices.foldl (ladderStep scalar) loop) u
      (Registers.run ladderScale ladderConstant u (indices.map (scalarBit scalar)) s) := by
  induction indices generalizing loop s with
  | nil => exact h
  | cons i indices ih =>
    have hRest := ih (h.step scalar i)
    rw [List.foldl_cons, List.map_cons, Registers.run, List.foldl_cons]
    exact hRest

theorem LoopRepr.settle {loop : LadderState × Bool} {u : Fp} {s : Registers Fp × Bool}
    (h : LoopRepr loop u s) : (loop.1.conditionalSwap loop.2).Repr u (Registers.settle s) := by
  rw [h.2]
  exact h.1.conditionalSwap s.2

/-- The ladder over the field, on the bits between the fixed top and low ones. -/
def fieldLadder (u : Fp) (bits : List Bool) : Fp × Fp :=
  let start := double ladderScale ladderConstant u 1
  let registers := Registers.settle
    (Registers.run ladderScale ladderConstant u bits (⟨start.1, start.2, u, 1⟩, true))
  let once := double ladderScale ladderConstant registers.x₂ registers.z₂
  double ladderScale ladderConstant once.1 once.2

theorem middleBits_eq (scalar : Bytes 38) :
    (List.range' 2 298).reverse.map (scalarBit scalar) =
      digitsDown (bytesValue scalar.1 / 4).testBit 298 := by
  have hBit : ∀ i, scalarBit scalar (2 + i) = (bytesValue scalar.1 / 4).testBit i := by
    intro i
    rw [scalarBit_eq, show 4 = 2 ^ 2 from rfl, Nat.testBit_div_two_pow, add_comm]
  rw [digitsDown, List.range'_eq_map_range, ← List.map_reverse, List.map_map]
  exact List.map_congr_left fun i _ => hBit i

theorem ladder_repr (scalar : Bytes 38) {u : Fe301} {v : Fp} (hu : u.Repr v) :
    (ladder scalar u).x.Repr
        (fieldLadder v (digitsDown (bytesValue scalar.1 / 4).testBit 298)).1 ∧
      (ladder scalar u).z.Repr
        (fieldLadder v (digitsDown (bytesValue scalar.1 / 4).testBit 298)).2 := by
  have hBase := Fe301Lazy.repr_fromFe301 hu
  obtain ⟨hx, hz⟩ := doubleScaled_repr hBase Fe301Lazy.repr_one
  have hStart : LoopRepr (⟨.fromFe301 u, _, _, .fromFe301 u, .one⟩, true) v
      (⟨(double ladderScale ladderConstant v 1).1, (double ladderScale ladderConstant v 1).2,
        v, 1⟩, true) :=
    ⟨⟨hBase, hx, hz, hBase, Fe301Lazy.repr_one⟩, rfl⟩
  have hSettled := (hStart.run scalar (List.range' 2 298).reverse).settle
  rw [middleBits_eq] at hSettled
  have hOnce := doubleScaled_repr hSettled.x2 hSettled.z2
  exact doubleScaled_repr hOnce.1 hOnce.2

theorem appendBits_middle {k : ℕ} (hLow : 2 ^ 300 ≤ k) (hHigh : k < 2 ^ 301) :
    appendBits 1 (digitsDown (k / 4).testBit 298) = k / 4 := by
  have hPower : (2 : ℕ) ^ 300 = 4 * 2 ^ 298 := pow_add 2 2 298
  have hDouble : (2 : ℕ) ^ 301 = 8 * 2 ^ 298 := pow_add 2 3 298
  rw [appendBits_digitsDown, one_mul]
  generalize (2 : ℕ) ^ 298 = top at *
  have hTop : top ≤ k / 4 := by omega
  rw [Nat.mod_eq_sub_mod hTop, Nat.mod_eq_of_lt (by omega)]
  omega

theorem fieldLadder_represents {M : MontgomeryCurve Fp} (hA : M.A = E.montgomery.A) {u v : Fp}
    (hCurve : M.OnCurve u v) (hu : u ≠ 0) {k : ℕ} (hLow : 2 ^ 300 ≤ k) (hHigh : k < 2 ^ 301)
    (hFour : 4 ∣ k) :
    M.Represents (fieldLadder u (digitsDown (k / 4).testBit 298)).1
      (fieldLadder u (digitsDown (k / 4).testBit 298)).2 (k • .affine u v hCurve) := by
  have hn := ladderConstant_eq hA
  have hStart := @tracks_one Fp _ _ M ladderScale ladderConstant u v hCurve ladderScale_ne_zero hn
  have hRun := (hStart.run ladderScale_ne_zero hn hu (digitsDown (k / 4).testBit 298)).low
  rw [appendBits_middle hLow hHigh] at hRun
  have hOnce := hRun.double ladderScale_ne_zero hn
  have hTwice := hOnce.double ladderScale_ne_zero hn
  have hSum : k / 4 + k / 4 + (k / 4 + k / 4) = k := by omega
  rw [← add_nsmul, ← add_nsmul, hSum] at hTwice
  exact hTwice

/-- Base coordinate zero degenerates to a zero denominator. -/
theorem fieldLadder_zero (bits : List Bool) : (fieldLadder 0 bits).2 = 0 := by
  have hStart : (double ladderScale ladderConstant 0 1).2 = 0 :=
    double_snd_eq_zero _ _ (zero_mul 1)
  have hDegenerate : @Degenerate Fp _ ⟨(double ladderScale ladderConstant 0 1).1,
      (double ladderScale ladderConstant 0 1).2, 0, 1⟩ :=
    ⟨by rw [hStart, mul_zero], zero_mul 1⟩
  have hRun := @Degenerate.run Fp _ ladderScale ladderConstant bits (_, true) hDegenerate
  have hOnce := double_snd_eq_zero ladderScale ladderConstant
    (hRun.conditionalSwap (Registers.run ladderScale ladderConstant 0 bits
      (⟨(double ladderScale ladderConstant 0 1).1,
        (double ladderScale ladderConstant 0 1).2, 0, 1⟩, true)).2).1
  refine double_snd_eq_zero _ _ ?_
  rw [Registers.settle, hOnce, mul_zero]

theorem finalize_eq [ModularInverse] {projective : ProjectiveOutput} {X Z : Fp}
    (hx : projective.x.Repr X) (hz : projective.z.Repr Z) :
    finalize projective =
      if X / Z = 0 then .error .allZeroSharedSecret else .ok (Fe301.oracleBytes (X / Z)) := by
  by_cases hZ : Z = 0
  · rw [if_pos (by rw [hZ, div_zero]), finalize, hz.isZero, decide_eq_true hZ]
    rfl
  · have hAffine := hx.mul (hz.invert hZ)
    rw [← div_eq_mul_inv] at hAffine
    simp only [finalize, hz.isZero, hAffine.isZero, hAffine.toCanonicalBytes, decide_eq_false hZ]
    split_ifs with hCheck hQuotient hQuotient
    · rfl
    · simp [hQuotient] at hCheck
    · simp [hQuotient] at hCheck
    · rfl

end X301

end X301Provider
