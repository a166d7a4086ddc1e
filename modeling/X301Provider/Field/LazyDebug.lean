import X301Provider.Field.LazySpec
import X301Provider.Library.Observation

/-!
# The lazy operations of a debug build

A debug build evaluates the assertions on carries and borrows that a release build
drops. The operations below are those of the release build, and they also report
every assertion and every representative they form. On bounded operands all reports
hold.
-/

namespace X301Provider

open Limbs

inductive LazyReport
  | debugAssert (condition : Bool)
  | lazy (x : Fe301Lazy)
  | linear (x : Fe301LazyLinear)

/-- An assertion that does not fire, a representative below its bound. -/
def LazyReport.Holds : LazyReport → Prop
  | .debugAssert condition => condition = true
  | .lazy x => value x.limbs.1 < 2 * P
  | .linear x => value x.limbs.1 < 4 * P

abbrev Debug := Observed LazyReport

namespace Debug

open Observed (report)

/-- The debug build computes the value of the release build, and all its reports hold. -/
abbrev Agrees {α : Type} (debug : Debug α) (release : α) : Prop :=
  Observed.Passes LazyReport.Holds debug release

def assertZero (word : UInt64) : Debug Unit := report (.debugAssert (word == 0))

def lazy (x : Fe301Lazy) : Debug Fe301Lazy := do
  report (.lazy x)
  pure x

def linear (x : Fe301LazyLinear) : Debug Fe301LazyLinear := do
  report (.linear x)
  pure x

theorem assertZero_agrees {word : UInt64} (h : word = 0) : Agrees (assertZero word) () := by
  apply Observed.Passes.report
  rw [h]
  rfl

theorem lazy_agrees {x : Fe301Lazy} {v : Fp} (h : x.Repr v) : Agrees (lazy x) x := by
  have hReport : LazyReport.Holds (.lazy x) := h.1
  exact (Observed.Passes.report hReport).bind (.pure x)

theorem linear_agrees {x : Fe301LazyLinear} {v : Fp} (h : x.Repr v) : Agrees (linear x) x := by
  have hReport : LazyReport.Holds (.linear x) := h.1
  exact (Observed.Passes.report hReport).bind (.pure x)

def reduceSmallProductUnreduced (product : Words 6) : Debug (Words 5) := do
  let high := (foldHigh product).head
  let low := foldLow product
  let addLow := high <<< 35
  let addHigh := high >>> 29
  let sums := (carryChain [(low.get 1).toNat + addLow.toNat, (low.get 2).toNat + addHigh.toNat,
    (low.get 3).toNat, (low.get 4).toNat] 0).1
  let penalty := u128 (high.toNat * foldSubtrahend)
  let pass := borrowChain subWithBorrowRuntime (low.head :: sums) [lo penalty, 0, 0, 0, 0] 0
  assertZero pass.2
  pure ⟨pass.1, (X301Provider.reduceSmallProductUnreduced product).2⟩

theorem reduceSmallProductUnreduced_agrees {x : Words 5} (hx : value x.1 < 4 * P) (m : UInt32) :
    Agrees (reduceSmallProductUnreduced (multiplyFiveByU32 x m))
      (X301Provider.reduceSmallProductUnreduced (multiplyFiveByU32 x m)) := by
  have hBorrow := (reduceSmallProduct_exact _ (multiplyFiveByU32_lt hx m)).1
  exact (assertZero_agrees hBorrow).bind (.pure _)

end Debug

namespace Fe301Lazy

variable {x y : Fe301Lazy} {v w : Fp}

def addLooseDebug (x y : Fe301Lazy) : Debug Fe301LazyLinear := do
  let (sum, carry) := addLimbs x.limbs y.limbs
  Debug.assertZero carry
  Debug.linear ⟨sum⟩

def subLooseDebug (x y : Fe301Lazy) : Debug Fe301LazyLinear := do
  let (augmented, carry) := addLimbs x.limbs modulusTimesTwo
  Debug.assertZero carry
  let (difference, borrow) := subtractLimbsRuntime augmented y.limbs
  Debug.assertZero borrow
  Debug.linear ⟨difference⟩

def mulDebug (x y : Fe301Lazy) : Debug Fe301Lazy := Debug.lazy (x.mul y)

def squareDebug (x : Fe301Lazy) : Debug Fe301Lazy := Debug.lazy x.square

def mulSmallDebug (x : Fe301Lazy) (value : UInt32) : Debug Fe301Lazy := do
  let reduced ← Debug.reduceSmallProductUnreduced (multiplyFiveByU32 x.limbs value)
  Debug.lazy ⟨reduced⟩

theorem addLooseDebug_agrees (hx : x.Repr v) (hy : y.Repr w) :
    Debug.Agrees (x.addLooseDebug y) (x.addLoose y) := by
  have hCarry := (addLoose_exact hx.1 hy.1).1
  exact (Debug.assertZero_agrees hCarry).bind (Debug.linear_agrees (hx.addLoose hy))

theorem subLooseDebug_agrees (hx : x.Repr v) (hy : y.Repr w) :
    Debug.Agrees (x.subLooseDebug y) (x.subLoose y) := by
  obtain ⟨hCarry, hBorrow, -⟩ := subLoose_exact hx.1 hy.1
  have hLinear := Debug.linear_agrees (hx.subLoose hy)
  exact (Debug.assertZero_agrees hCarry).bind ((Debug.assertZero_agrees hBorrow).bind hLinear)

theorem mulDebug_agrees (hx : x.Repr v) (hy : y.Repr w) :
    Debug.Agrees (x.mulDebug y) (x.mul y) :=
  Debug.lazy_agrees (hx.mul hy)

theorem squareDebug_agrees (hx : x.Repr v) : Debug.Agrees x.squareDebug x.square :=
  Debug.lazy_agrees hx.square

theorem mulSmallDebug_agrees (hx : x.Repr v) (m : UInt32) :
    Debug.Agrees (x.mulSmallDebug m) (x.mulSmall m) := by
  have hLt := hx.1
  have hBound : value x.limbs.1 < 4 * P := by omega
  exact (Debug.reduceSmallProductUnreduced_agrees hBound m).bind
    (Debug.lazy_agrees (hx.mulSmall m))

end Fe301Lazy

namespace Fe301LazyLinear

variable {x y : Fe301LazyLinear} {v w : Fp}

def mulDebug (x y : Fe301LazyLinear) : Debug Fe301Lazy := Debug.lazy (x.mul y)

def squareDebug (x : Fe301LazyLinear) : Debug Fe301Lazy := Debug.lazy x.square

def mulTightDebug (x : Fe301LazyLinear) (y : Fe301Lazy) : Debug Fe301Lazy :=
  Debug.lazy (x.mulTight y)

def mulSmallDebug (x : Fe301LazyLinear) (value : UInt32) : Debug Fe301Lazy := do
  let reduced ← Debug.reduceSmallProductUnreduced (multiplyFiveByU32 x.limbs value)
  Debug.lazy ⟨reduced⟩

def tightenDebug (x : Fe301LazyLinear) : Debug Fe301Lazy := Debug.lazy x.tighten

theorem mulDebug_agrees (hx : x.Repr v) (hy : y.Repr w) :
    Debug.Agrees (x.mulDebug y) (x.mul y) :=
  Debug.lazy_agrees (hx.mul hy)

theorem squareDebug_agrees (hx : x.Repr v) : Debug.Agrees x.squareDebug x.square :=
  Debug.lazy_agrees hx.square

theorem mulTightDebug_agrees {z : Fe301Lazy} (hx : x.Repr v) (hz : z.Repr w) :
    Debug.Agrees (x.mulTightDebug z) (x.mulTight z) :=
  Debug.lazy_agrees (hx.mulTight hz)

theorem mulSmallDebug_agrees (hx : x.Repr v) (m : UInt32) :
    Debug.Agrees (x.mulSmallDebug m) (x.mulSmall m) :=
  (Debug.reduceSmallProductUnreduced_agrees hx.1 m).bind (Debug.lazy_agrees (hx.mulSmall m))

theorem tightenDebug_agrees (hx : x.Repr v) : Debug.Agrees x.tightenDebug x.tighten :=
  Debug.lazy_agrees hx.tighten

end Fe301LazyLinear

end X301Provider
