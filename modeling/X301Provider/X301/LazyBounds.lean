import X301Provider.Edwards.PointDebug
import X301Provider.Field.Exactness
import X301Provider.X301.LadderSpec

/-!
# The bounds of lazy reduction

A release build discards carries and borrows, so every operation relies on the bounds
of its operands. They hold for each operation, after each ladder round and inside the
point formulas, and the assertions of a debug build never fire.
-/

namespace X301Provider

open Limbs

def Fe301Lazy.Bounded (x : Fe301Lazy) : Prop := value x.limbs.1 < 2 * P

def Fe301LazyLinear.Bounded (x : Fe301LazyLinear) : Prop := value x.limbs.1 < 4 * P

def Fe301Lazy.toFp (x : Fe301Lazy) : Fp := (value x.limbs.1 : Fp)

def Fe301LazyLinear.toFp (x : Fe301LazyLinear) : Fp := (value x.limbs.1 : Fp)

/-- The operations on values below `2p`; a representative is bounded and congruent. -/
structure Fe301Lazy.OperationsExact (x y : Fe301Lazy) (m : UInt32) : Prop where
  addLoose_carry : (addLimbs x.limbs y.limbs).2 = 0
  addLoose : (x.addLoose y).Repr (x.toFp + y.toFp)
  subLoose_carry : (addLimbs x.limbs modulusTimesTwo).2 = 0
  subLoose_borrow : (subtractLimbsRuntime (addLimbs x.limbs modulusTimesTwo).1 y.limbs).2 = 0
  subLoose : (x.subLoose y).Repr (x.toFp - y.toFp)
  mul : (x.mul y).Repr (x.toFp * y.toFp)
  square : x.square.Repr (x.toFp ^ 2)
  mulSmall : (x.mulSmall m).Repr (x.toFp * m.toNat)
  mulSmall_debug : Debug.Agrees (x.mulSmallDebug m) (x.mulSmall m)
  canonical : x.canonical.Repr x.toFp
  canonical_unique : ∀ z : Fe301, z.Canonical → z.toFp = x.toFp → z = x.canonical

/-- The operations on values below `4p`. -/
structure Fe301LazyLinear.OperationsExact (x y : Fe301LazyLinear) (z : Fe301Lazy) (m : UInt32) :
    Prop where
  mul : (x.mul y).Repr (x.toFp * y.toFp)
  square : x.square.Repr (x.toFp ^ 2)
  mulTight : (x.mulTight z).Repr (x.toFp * z.toFp)
  mulSmall : (x.mulSmall m).Repr (x.toFp * m.toNat)
  mulSmall_debug : Debug.Agrees (x.mulSmallDebug m) (x.mulSmall m)
  tighten : x.tighten.Repr x.toFp

theorem Fe301Lazy.Bounded.repr {x : Fe301Lazy} (h : x.Bounded) : x.Repr x.toFp := ⟨h, rfl⟩

theorem Fe301LazyLinear.Bounded.repr {x : Fe301LazyLinear} (h : x.Bounded) : x.Repr x.toFp :=
  ⟨h, rfl⟩

theorem Fe301Lazy.Bounded.operationsExact {x y : Fe301Lazy} (hx : x.Bounded) (hy : y.Bounded)
    (m : UInt32) : x.OperationsExact y m := by
  have hX := hx.repr
  have hY := hy.repr
  obtain ⟨hCarry, hBorrow, -⟩ := subLoose_exact hx hy
  constructor
  · exact (addLoose_exact hx hy).1
  · exact hX.addLoose hY
  · exact hCarry
  · exact hBorrow
  · exact hX.subLoose hY
  · exact hX.mul hY
  · exact hX.square
  · exact hX.mulSmall m
  · exact mulSmallDebug_agrees hX m
  · exact hX.canonical
  · intro z hCanonical hz
    exact (Fe301.repr_of_cast hCanonical hz).ext hX.canonical

theorem Fe301LazyLinear.Bounded.operationsExact {x y : Fe301LazyLinear} {z : Fe301Lazy}
    (hx : x.Bounded) (hy : y.Bounded) (hz : z.Bounded) (m : UInt32) :
    x.OperationsExact y z m := by
  have hX := hx.repr
  constructor
  · exact hX.mul hy.repr
  · exact hX.square
  · exact hX.mulTight hz.repr
  · exact hX.mulSmall m
  · exact mulSmallDebug_agrees hX m
  · exact hX.tighten

namespace X301

open Fe301Lazy (fromFe301)

def doubleScaledDebug (x z : Fe301Lazy) : Debug (Fe301Lazy × Fe301Lazy) := do
  let a ← x.addLooseDebug z
  let aa ← a.squareDebug
  let b ← x.subLooseDebug z
  let bb ← b.squareDebug
  let e ← aa.subLooseDebug bb
  let scaledAa ← aa.mulSmallDebug a24Denominator
  let nextX ← scaledAa.mulDebug bb
  let scaledE ← e.mulSmallDebug a24Numerator
  let nextZ ← e.mulDebug (← scaledAa.addLooseDebug scaledE)
  pure (nextX, nextZ)

def ladderRoundDebug (state : LadderState) : Debug LadderState := do
  let a ← state.x2.addLooseDebug state.z2
  let aa ← a.squareDebug
  let b ← state.x2.subLooseDebug state.z2
  let bb ← b.squareDebug
  let e ← aa.subLooseDebug bb
  let c ← state.x3.addLooseDebug state.z3
  let d ← state.x3.subLooseDebug state.z3
  let da ← d.mulDebug a
  let cb ← c.mulDebug b
  let x3 ← (← da.addLooseDebug cb).squareDebug
  let z3 ← state.x1.mulDebug (← (← da.subLooseDebug cb).squareDebug)
  let scaledAa ← aa.mulSmallDebug a24Denominator
  let x2 ← scaledAa.mulDebug bb
  let scaledE ← e.mulSmallDebug a24Numerator
  let z2 ← e.mulDebug (← scaledAa.addLooseDebug scaledE)
  pure { state with x2, z2, x3, z3 }

def ladderStepDebug (scalar : Bytes 38) (loop : LadderState × Bool) (bitIndex : ℕ) :
    Debug (LadderState × Bool) := do
  let bit := scalarBit scalar bitIndex
  let state ← ladderRoundDebug (loop.1.conditionalSwap (loop.2 ^^ bit))
  pure (state, bit)

/-- After the loop: the last swap and the two final doublings. -/
def ladderFinishDebug (loop : LadderState × Bool) : Debug ProjectiveOutput := do
  let state := loop.1.conditionalSwap loop.2
  let (x, z) ← doubleScaledDebug state.x2 state.z2
  let (x, z) ← doubleScaledDebug x z
  pure ⟨x, z⟩

/-- Up to the first round. -/
def ladderStartDebug (u : Fe301) : Debug (LadderState × Bool) := do
  let u ← Debug.lazy (fromFe301 u)
  let (x2, z2) ← doubleScaledDebug u .one
  pure (⟨u, x2, z2, u, .one⟩, true)

def ladderDebug (scalar : Bytes 38) (u : Fe301) : Debug ProjectiveOutput := do
  let start ← ladderStartDebug u
  let loop ← (List.range' 2 298).reverse.foldlM (ladderStepDebug scalar) start
  ladderFinishDebug loop

theorem doubleScaledDebug_agrees {x z : Fe301Lazy} {X Z : Fp} (hx : x.Repr X) (hz : z.Repr Z) :
    Debug.Agrees (doubleScaledDebug x z) (doubleScaled x z) := by
  have ha := hx.addLoose hz
  have hb := hx.subLoose hz
  have he := ha.square.subLoose hb.square
  have hScaled := ha.square.mulSmall a24Denominator
  have hScaledE := he.mulSmall a24Numerator
  exact (Fe301Lazy.addLooseDebug_agrees hx hz).bind <|
    (Fe301LazyLinear.squareDebug_agrees ha).bind <|
    (Fe301Lazy.subLooseDebug_agrees hx hz).bind <|
    (Fe301LazyLinear.squareDebug_agrees hb).bind <|
    (Fe301Lazy.subLooseDebug_agrees ha.square hb.square).bind <|
    (Fe301Lazy.mulSmallDebug_agrees ha.square _).bind <|
    (Fe301Lazy.mulDebug_agrees hScaled hb.square).bind <|
    (Fe301LazyLinear.mulSmallDebug_agrees he _).bind <|
    (Fe301Lazy.addLooseDebug_agrees hScaled hScaledE).bind <|
    (Fe301LazyLinear.mulDebug_agrees he (hScaled.addLoose hScaledE)).bind <|
    .pure _

theorem LadderState.Repr.roundDebug_agrees {state : LadderState} {u : Fp}
    {s : MontgomeryCurve.Registers Fp} (h : state.Repr u s) :
    Debug.Agrees (ladderRoundDebug state) (ladderRound state) := by
  have ha := h.x2.addLoose h.z2
  have hb := h.x2.subLoose h.z2
  have he := ha.square.subLoose hb.square
  have hc := h.x3.addLoose h.z3
  have hd := h.x3.subLoose h.z3
  have hda := hd.mul ha
  have hcb := hc.mul hb
  have hScaled := ha.square.mulSmall a24Denominator
  have hScaledE := he.mulSmall a24Numerator
  exact (Fe301Lazy.addLooseDebug_agrees h.x2 h.z2).bind <|
    (Fe301LazyLinear.squareDebug_agrees ha).bind <|
    (Fe301Lazy.subLooseDebug_agrees h.x2 h.z2).bind <|
    (Fe301LazyLinear.squareDebug_agrees hb).bind <|
    (Fe301Lazy.subLooseDebug_agrees ha.square hb.square).bind <|
    (Fe301Lazy.addLooseDebug_agrees h.x3 h.z3).bind <|
    (Fe301Lazy.subLooseDebug_agrees h.x3 h.z3).bind <|
    (Fe301LazyLinear.mulDebug_agrees hd ha).bind <|
    (Fe301LazyLinear.mulDebug_agrees hc hb).bind <|
    (Fe301Lazy.addLooseDebug_agrees hda hcb).bind <|
    (Fe301LazyLinear.squareDebug_agrees (hda.addLoose hcb)).bind <|
    (Fe301Lazy.subLooseDebug_agrees hda hcb).bind <|
    (Fe301LazyLinear.squareDebug_agrees (hda.subLoose hcb)).bind <|
    (Fe301Lazy.mulDebug_agrees h.x1 (hda.subLoose hcb).square).bind <|
    (Fe301Lazy.mulSmallDebug_agrees ha.square _).bind <|
    (Fe301Lazy.mulDebug_agrees hScaled hb.square).bind <|
    (Fe301LazyLinear.mulSmallDebug_agrees he _).bind <|
    (Fe301Lazy.addLooseDebug_agrees hScaled hScaledE).bind <|
    (Fe301LazyLinear.mulDebug_agrees he (hScaled.addLoose hScaledE)).bind <|
    .pure _

theorem ladderStepDebug_agrees {loop : LadderState × Bool} {u : Fp}
    {s : MontgomeryCurve.Registers Fp × Bool} (h : LoopRepr loop u s) (scalar : Bytes 38)
    (i : ℕ) : Debug.Agrees (ladderStepDebug scalar loop i) (ladderStep scalar loop i) :=
  (h.1.conditionalSwap _).roundDebug_agrees.bind (.pure _)

def ladderStart (u : Fe301) : LadderState × Bool :=
  let u := fromFe301 u
  let (x2, z2) := doubleScaled u .one
  (⟨u, x2, z2, u, .one⟩, true)

/-- The loop variables after a number of rounds. -/
def ladderLoop (scalar : Bytes 38) (u : Fe301) (rounds : ℕ) : LadderState × Bool :=
  ((List.range' 2 298).reverse.take rounds).foldl (ladderStep scalar) (ladderStart u)

variable {u : Fe301} {v : Fp}

theorem ladderStart_repr (hu : u.Repr v) : ∃ s, LoopRepr (ladderStart u) v s := by
  have hBase := Fe301Lazy.repr_fromFe301 hu
  obtain ⟨hx, hz⟩ := doubleScaled_repr hBase Fe301Lazy.repr_one
  exact ⟨(⟨_, _, v, 1⟩, true), ⟨hBase, hx, hz, hBase, Fe301Lazy.repr_one⟩, rfl⟩

theorem ladderStartDebug_agrees (hu : u.Repr v) :
    Debug.Agrees (ladderStartDebug u) (ladderStart u) := by
  have hBase := Fe301Lazy.repr_fromFe301 hu
  exact (Debug.lazy_agrees hBase).bind <|
    (doubleScaledDebug_agrees hBase Fe301Lazy.repr_one).bind <|
    .pure _

theorem ladderLoop_repr (scalar : Bytes 38) (hu : u.Repr v) (rounds : ℕ) :
    ∃ s, LoopRepr (ladderLoop scalar u rounds) v s := by
  obtain ⟨s, hStart⟩ := ladderStart_repr hu
  exact ⟨_, hStart.run scalar _⟩

/-- The coordinates after the first and after the second final doubling. -/
def ladderDoublings (loop : LadderState × Bool) : ProjectiveOutput × ProjectiveOutput :=
  let state := loop.1.conditionalSwap loop.2
  let (x, z) := doubleScaled state.x2 state.z2
  let (x', z') := doubleScaled x z
  (⟨x, z⟩, ⟨x', z'⟩)

theorem ladder_eq_doublings (scalar : Bytes 38) (u : Fe301) :
    ladder scalar u =
      (ladderDoublings ((List.range' 2 298).reverse.foldl (ladderStep scalar) (ladderStart u))).2 :=
  rfl

theorem ladder_eq_ladderLoop (scalar : Bytes 38) (u : Fe301) :
    ladder scalar u = (ladderDoublings (ladderLoop scalar u 298)).2 := by
  have hAll : (List.range' 2 298).reverse.take 298 = (List.range' 2 298).reverse :=
    List.take_of_length_le (by rw [List.length_reverse, List.length_range'])
  rw [ladder_eq_doublings, ladderLoop, hAll]

theorem ladderFinishDebug_agrees {loop : LadderState × Bool}
    {s : MontgomeryCurve.Registers Fp × Bool} (h : LoopRepr loop v s) :
    Debug.Agrees (ladderFinishDebug loop) (ladderDoublings loop).2 := by
  have hSettled := h.settle
  have hOnce := doubleScaled_repr hSettled.x2 hSettled.z2
  exact (doubleScaledDebug_agrees hSettled.x2 hSettled.z2).bind <|
    (doubleScaledDebug_agrees hOnce.1 hOnce.2).bind <|
    .pure _

theorem ladderRunDebug_agrees {loop : LadderState × Bool}
    {s : MontgomeryCurve.Registers Fp × Bool} (h : LoopRepr loop v s) (scalar : Bytes 38)
    (indices : List ℕ) :
    Debug.Agrees (do
        let loop ← indices.foldlM (ladderStepDebug scalar) loop
        ladderFinishDebug loop)
      (ladderDoublings (indices.foldl (ladderStep scalar) loop)).2 := by
  have hStep : ∀ (loop : LadderState × Bool) (i : ℕ), (∃ s, LoopRepr loop v s) →
      Debug.Agrees (ladderStepDebug scalar loop i) (ladderStep scalar loop i) ∧
        ∃ s, LoopRepr (ladderStep scalar loop i) v s := by
    rintro loop i ⟨s, h⟩
    exact ⟨ladderStepDebug_agrees h scalar i, _, h.step scalar i⟩
  have hLoop := Observed.Passes.foldlM hStep indices ⟨s, h⟩
  exact hLoop.bind (ladderFinishDebug_agrees (h.run scalar indices))

theorem ladderDebug_agrees (scalar : Bytes 38) (hu : u.Repr v) :
    Debug.Agrees (ladderDebug scalar u) (ladder scalar u) := by
  obtain ⟨s, hStart⟩ := ladderStart_repr hu
  rw [ladder_eq_doublings, ladderDebug]
  exact (ladderStartDebug_agrees hu).bind
    (ladderRunDebug_agrees hStart scalar (List.range' 2 298).reverse)

structure LadderState.Bounded (state : LadderState) : Prop where
  x1 : state.x1.Bounded
  x2 : state.x2.Bounded
  z2 : state.z2.Bounded
  x3 : state.x3.Bounded
  z3 : state.z3.Bounded

structure ProjectiveOutput.Bounded (output : ProjectiveOutput) : Prop where
  x : output.x.Bounded
  z : output.z.Bounded

theorem LadderState.Repr.bounded {state : LadderState} {s : MontgomeryCurve.Registers Fp}
    (h : state.Repr v s) : state.Bounded :=
  ⟨h.x1.1, h.x2.1, h.z2.1, h.x3.1, h.z3.1⟩

theorem ladderDoublings_bounded {loop : LadderState × Bool}
    {s : MontgomeryCurve.Registers Fp × Bool} (h : LoopRepr loop v s) :
    (ladderDoublings loop).1.Bounded ∧ (ladderDoublings loop).2.Bounded := by
  have hSettled := h.settle
  have hOnce := doubleScaled_repr hSettled.x2 hSettled.z2
  have hTwice := doubleScaled_repr hOnce.1 hOnce.2
  exact ⟨⟨hOnce.1.1, hOnce.2.1⟩, ⟨hTwice.1.1, hTwice.2.1⟩⟩

/-- The bounds hold for every operation on bounded values, in every state of the ladder, and
for every representative that the ladder and the point formulas form; no assertion fires. -/
theorem lazyReduction_bounded :
    (∀ (x y : Fe301Lazy) (m : UInt32), x.Bounded → y.Bounded → x.OperationsExact y m) ∧
    (∀ (x y : Fe301LazyLinear) (z : Fe301Lazy) (m : UInt32), x.Bounded → y.Bounded → z.Bounded →
      x.OperationsExact y z m) ∧
    (∀ (scalar : Bytes 38) (u : Fe301), u.Canonical →
      (∀ rounds, (ladderLoop scalar u rounds).1.Bounded) ∧
      (ladderDoublings (ladderLoop scalar u 298)).1.Bounded ∧
      (ladderDoublings (ladderLoop scalar u 298)).2.Bounded ∧
      ladder scalar u = (ladderDoublings (ladderLoop scalar u 298)).2 ∧
      Debug.Agrees (ladderDebug scalar u) (ladder scalar u)) ∧
    (∀ p q : EdwardsPoint, p.Canonical → q.Canonical → Debug.Agrees (p.addDebug q) (p.add q)) ∧
    (∀ (p : EdwardsPoint) (q : AffineNielsPoint), p.Canonical → q.Canonical →
      Debug.Agrees (p.addAffineDebug q) (p.addAffine q)) ∧
    (∀ p : EdwardsPoint, p.Canonical → Debug.Agrees p.doubleDebug p.double) := by
  refine ⟨?_, ?_, ?_, ?_, ?_, ?_⟩
  · intro x y m hx hy
    exact hx.operationsExact hy m
  · intro x y z m hx hy hz
    exact hx.operationsExact hy hz m
  · intro scalar u hu
    obtain ⟨s, hLast⟩ := ladderLoop_repr scalar hu.repr 298
    obtain ⟨hOnce, hTwice⟩ := ladderDoublings_bounded hLast
    refine ⟨?_, hOnce, hTwice, ladder_eq_ladderLoop scalar u, ladderDebug_agrees scalar hu.repr⟩
    intro rounds
    obtain ⟨s, hLoop⟩ := ladderLoop_repr scalar hu.repr rounds
    exact hLoop.1.bounded
  · intro p q hp hq
    exact EdwardsPoint.addDebug_agrees hp hq
  · intro p q hp hq
    exact EdwardsPoint.addAffineDebug_agrees hp hq
  · intro p hp
    exact EdwardsPoint.doubleDebug_agrees hp

/-- The largest canonical coordinate with the zero scalar. -/
theorem lazyReduction_bounded_minusOne :
    (ladderLoop (.replicate 38 0) Fe301.minusOne 1).1.Bounded ∧
      Debug.Agrees (ladderDebug (.replicate 38 0) Fe301.minusOne)
        (ladder (.replicate 38 0) Fe301.minusOne) := by
  obtain ⟨-, -, hLadder, -⟩ := lazyReduction_bounded
  obtain ⟨hStates, -, -, -, hDebug⟩ := hLadder (.replicate 38 0) Fe301.minusOne
    Fe301.canonical_minusOne
  exact ⟨hStates 1, hDebug⟩

end X301

end X301Provider
