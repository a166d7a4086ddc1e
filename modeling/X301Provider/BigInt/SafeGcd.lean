import X301Provider.BigInt.Montgomery

/-!
# Modular inversion by division steps

`SafeGcdInverter` of the big-integer library. The steps of one batch run on the low words; their
matrix then updates the whole integers, which are signed magnitudes, and the integers modulo the
modulus. The other factor of a wide product is always a single limb here.
-/

namespace X301Provider.BigInt

open Limbs

/-- `shr_assign_limb_vartime` by a shift of at least one: from the top limb down, with the bits
that leave a limb. -/
def shrLimbs (shift : ℕ) (carry : UInt64) : List UInt64 → List UInt64 × UInt64
  | [] => ([], carry)
  | limb :: limbs =>
    let (limbs, carry) := shrLimbs shift carry limbs
    ((limb >>> UInt64.ofNat shift ||| carry) :: limbs, limb <<< UInt64.ofNat (64 - shift))

theorem shrLimbs_length (shift : ℕ) (carry : UInt64) (limbs : List UInt64) :
    (shrLimbs shift carry limbs).1.length = limbs.length := by
  induction limbs with
  | nil => rfl
  | cons limb limbs ih => exact congrArg Nat.succ ih

namespace Uint

variable {n : ℕ}

/-- The negation, and whether the number is zero. -/
def carryingNeg (x : Uint n) : Uint n × Bool :=
  let pass := carryChain (x.1.map fun limb => (~~~limb).toNat) 1
  (⟨pass.1, by rw [carryChain_length, List.length_map, x.2]⟩, lsb pass.2)

/-- `widening_mul` by a single limb: the carry of a row waits in the next limb. -/
def wideningMul (x : Uint n) (rhs : UInt64) : Uint n × UInt64 :=
  let pass := carryChain (x.1.map fun limb => limb.toNat * rhs.toNat) 0
  (⟨pass.1, by rw [carryChain_length, List.length_map, x.2]⟩, pass.2)

def shrVartime (x : Uint n) (shift : ℕ) : Uint n :=
  ⟨(shrLimbs shift 0 x.1).1, by rw [shrLimbs_length, x.2]⟩

/-- Set bits in the top limb. -/
def orTop (x : Uint n) (bits : UInt64) : Uint n :=
  ⟨x.1.modify (n - 1) (· ||| bits), by rw [List.length_modify, x.2]⟩

def isZeroVartime (x : Uint n) : Bool := x.1.all (· == 0)

end Uint

namespace SafeGcd

variable {n : ℕ}

def gcdBatchSize : ℕ := 62

/-- The matrix of a batch, multiplied by a power of two. -/
structure JumpMatrix where
  t00 : Int64
  t01 : Int64
  t10 : Int64
  t11 : Int64

structure JumpState where
  f : Int64
  g : Int64
  delta : Int64
  t : JumpMatrix

def selectI64 (choice : Bool) (a b : Int64) : Int64 := if choice then b else a

def jumpStep (s : JumpState) : JumpState :=
  let dGtz := (s.delta &&& ~~~(s.delta >>> 63)).toUInt64 != 0
  let gOdd := lsb (s.g &&& 1).toUInt64
  let gAdj := selectI64 gOdd 0 s.f
  let swap := dGtz && gOdd
  { delta := selectI64 swap (2 + s.delta) (2 - s.delta)
    f := selectI64 swap s.f s.g
    g := selectI64 swap (s.g + gAdj) (s.g - gAdj) >>> 1
    t :=
      { t00 := selectI64 swap s.t.t00 s.t.t10 <<< 1
        t01 := selectI64 swap s.t.t01 s.t.t11 <<< 1
        t10 := s.t.t10 + selectI64 gOdd 0 (selectI64 dGtz s.t.t00 (-s.t.t00))
        t11 := s.t.t11 + selectI64 gOdd 0 (selectI64 dGtz s.t.t01 (-s.t.t01)) } }

def jumpStepVartime (s : JumpState) : JumpState :=
  let s : JumpState :=
    if s.g &&& 1 != 0 then
      if 0 < s.delta then
        ⟨s.g, s.g - s.f, 2 - s.delta, s.t.t10, s.t.t11, s.t.t10 - s.t.t00, s.t.t11 - s.t.t01⟩
      else ⟨s.f, s.g + s.f, 2 + s.delta, s.t.t00, s.t.t01, s.t.t10 + s.t.t00, s.t.t11 + s.t.t01⟩
    else { s with delta := 2 + s.delta }
  ⟨s.f, s.g >>> 1, s.delta, s.t.t00 <<< 1, s.t.t01 <<< 1, s.t.t10, s.t.t11⟩

/-- The counter and the matrix after a batch of steps. -/
def jump (vartime : Bool) (f g delta : Int64) (batch : ℕ) : Int64 × JumpMatrix :=
  let s := (if vartime then jumpStepVartime else jumpStep)^[batch] ⟨f, g, delta, 1, 0, 0, 1⟩
  (s.delta, s.t)

/-- Negate a wide integer with one limb on top. -/
def conditionalNegateInPlaceWide (wide : Uint n × UInt64) (flag : Bool) : Uint n × UInt64 :=
  let neg := wide.1.carryingNeg
  let hiNeg := ~~~wide.2 + if neg.2 then 1 else 0
  (Uint.select wide.1 neg.1 flag, if flag then hiNeg else wide.2)

/-- The two subtractions of a wide difference, with the borrow of the last one. -/
def borrowingSubWide (x y : Uint n × UInt64) : (Uint n × UInt64) × UInt64 :=
  let low := x.1.borrowingSub y.1 0
  let high := borrowingSub x.2 y.2 low.2
  ((low.1, high.1), high.2)

/-- Shift by fewer bits than a limb has; the second part of the loop over the limbs of a shift
does not run. -/
def shrInPlaceWide (wide : Uint n × UInt64) (shift : ℕ) : Uint n × UInt64 :=
  let copy := wide.2 <<< UInt64.ofNat (64 - shift)
  ((wide.1.shrVartime shift).orTop copy, wide.2 >>> UInt64.ofNat shift)

/-- The number of steps for a size in bits, in 32 bits. -/
def iterations (bits : ℕ) : ℕ := (45907 * bits + 30179) % 2 ^ 32 / 19929

/-- The magnitude and the sign of a limb. -/
def absSign (x : Int64) : UInt64 × Bool :=
  let sign := lsb (x.toUInt64 >>> 63)
  (if sign then ~~~x.toUInt64 + 1 else x.toUInt64, sign)

end SafeGcd

structure SignedInt (n : ℕ) where
  sign : Bool
  magnitude : Uint n

namespace SignedInt

open SafeGcd

variable {n : ℕ}

def fromUint (uint : Uint n) : SignedInt n := ⟨false, uint⟩

def zero : SignedInt n := .fromUint .zero

def isNonzero (x : SignedInt n) : Bool := !x.magnitude.isZero

/-- The lowest 63 bits with the sign. -/
def lowest (x : SignedInt n) : Int64 :=
  let mag := (x.magnitude.lowestU64 &&& ((0xffffffffffffffff : UInt64) >>> 1)).toInt64
  selectI64 x.sign mag (-mag)

/-- The sum or difference of two wide magnitudes with signs. -/
def combineWide (x y : Uint n × UInt64) (xNeg yNeg : Bool) : (Uint n × UInt64) × Bool :=
  let oddNeg := xNeg ^^ yNeg
  let difference := borrowingSubWide x (conditionalNegateInPlaceWide y !oddNeg)
  let swap := difference.2 != 0 && oddNeg
  (conditionalNegateInPlaceWide difference.1 swap, (xNeg && !swap) || (yNeg && swap))

/-- The combination `a * c + b * d` as a wide magnitude and a sign. -/
def lincombInt (a b : SignedInt n) (c d : Int64) : (Uint n × UInt64) × Bool :=
  let (c, cSign) := absSign c
  let (d, dSign) := absSign d
  combineWide (a.magnitude.wideningMul c) (b.magnitude.wideningMul d) (a.sign ^^ cSign)
    (b.sign ^^ dSign)

def lincombIntReduceShift (a b : SignedInt n) (c d : Int64) (shift : ℕ) : SignedInt n :=
  let combination := lincombInt a b c d
  ⟨combination.2, (shrInPlaceWide combination.1 shift).1⟩

/-- The part of a combination that a multiple of `m` leaves, divided by a power of two. -/
def reduceShiftMod (x : Uint n × UInt64) (sign : Bool) (shift : ℕ) (m : Uint n) (mi : UInt64) :
    SignedInt n :=
  let mf := x.1.lowestU64 * mi &&& ((0xffffffffffffffff : UInt64) >>> UInt64.ofNat (64 - shift))
  let difference := borrowingSubWide x (m.wideningMul mf)
  let swap := difference.2 != 0
  let x := shrInPlaceWide (conditionalNegateInPlaceWide difference.1 swap) shift
  ⟨sign ^^ swap, (x.1.trySubWithCarry x.2 m).1⟩

/-- The combination modulo `m`, divided by a power of two. -/
def lincombIntReduceShiftMod (a b : SignedInt n) (c d : Int64) (shift : ℕ) (m : Uint n)
    (mi : UInt64) : SignedInt n :=
  let combination := lincombInt a b c d
  reduceShiftMod combination.1 combination.2 shift m mi

/-- The value modulo `m`, negated for a negative greatest common divisor. -/
def norm (x : SignedInt n) (fSign : Bool) (m : Uint n) : Uint n :=
  let swap := (fSign ^^ x.sign) && x.isNonzero
  Uint.select x.magnitude (m.borrowingSub x.magnitude 0).1 swap

end SignedInt

namespace SafeGcd

variable {n : ℕ}

/-- The integers of the main loop. -/
structure LoopState (n : ℕ) where
  delta : Int64
  f : SignedInt n
  g : SignedInt n
  d : SignedInt n
  e : SignedInt n

def updateFg (a b : SignedInt n) (t : JumpMatrix) (shift : ℕ) : SignedInt n × SignedInt n :=
  (.lincombIntReduceShift a b t.t00 t.t01 shift, .lincombIntReduceShift a b t.t10 t.t11 shift)

def updateDe (d e : SignedInt n) (m : Uint n) (mi : UInt64) (t : JumpMatrix) (shift : ℕ) :
    SignedInt n × SignedInt n :=
  (.lincombIntReduceShiftMod d e t.t00 t.t01 shift m mi,
    .lincombIntReduceShiftMod d e t.t10 t.t11 shift m mi)

/-- The body of the main loop. -/
def runBatch (vartime : Bool) (m : Uint n) (mi : UInt64) (state : LoopState n) (batch : ℕ) :
    LoopState n :=
  let (delta, t) := jump vartime state.f.lowest state.g.lowest state.delta batch
  let (f, g) := updateFg state.f state.g t batch
  let (d, e) := updateDe state.d state.e m mi t batch
  ⟨delta, f, g, d, e⟩

def mainLoop (vartime : Bool) (m : Uint n) (mi : UInt64) (state : LoopState n) (steps : ℕ) :
    LoopState n :=
  if steps = 0 then state
  else if vartime && state.g.magnitude.isZeroVartime then state
  else
    let batch := min steps gcdBatchSize
    mainLoop vartime m mi (runBatch vartime m mi state batch) (steps - batch)
termination_by steps
decreasing_by
  have hBatch : 0 < gcdBatchSize := by decide
  omega

def loopStart (a m e : Uint n) : LoopState n :=
  ⟨1, .fromUint m, .fromUint a, .zero, .fromUint e⟩

def invertOddModPrecomp (vartime : Bool) (a : Uint n) (m : OddUint n) (mi : UInt64) (e : Uint n) :
    CtOption (Uint n) :=
  let state := mainLoop vartime m.1 mi (loopStart a m.1 e) (iterations (64 * n))
  ⟨state.d.norm state.f.sign m.1, state.f.magnitude.eq (.ofNat n 1) && !a.isZero⟩

end SafeGcd

/-- `SafeGcdInverter<LIMBS>`. -/
structure SafeGcdInverter (n : ℕ) where
  modulus : OddUint n
  inverse : UInt64
  adjuster : Uint n

namespace SafeGcdInverter

variable {n : ℕ}

def invert (inverter : SafeGcdInverter n) (value : Uint n) : CtOption (Uint n) :=
  SafeGcd.invertOddModPrecomp false value inverter.modulus inverter.inverse inverter.adjuster

def invertVartime (inverter : SafeGcdInverter n) (value : Uint n) : CtOption (Uint n) :=
  SafeGcd.invertOddModPrecomp true value inverter.modulus inverter.inverse inverter.adjuster

end SafeGcdInverter

end X301Provider.BigInt
