import X301Provider.BigInt.WideSquare

/-!
# Montgomery arithmetic of the big-integer library

Multiplication with the reduction in its inner loop, the way out of Montgomery form, the
parameters of an odd modulus, and powers by windows of the exponent. A wide word is a `u128`;
every sum that has to fit in one is reported before it is stored.
-/

namespace X301Provider.BigInt

open Limbs Limbs.Checked

variable {n k : ℕ}

/-- `u128::overflowing_add`. -/
def overflowingAdd (a b : ℕ) : ℕ × Bool := (u128 (a + b), decide (2 ^ 128 ≤ a + b))

/-- The high word of a sum, with the overflow above it. -/
def wideCarry (sum : ℕ × Bool) : ℕ := (sum.2.toNat <<< 64) ||| (sum.1 >>> 64)

/-- The next limb of a row, stored one place lower. -/
def montgomeryLimb (xi u : UInt64) (y modulus : Uint n) (row : Uint n × ℕ) (j : Fin (n - 1)) :
    Checked (Uint n × ℕ) := do
  let next : Fin n := ⟨j + 1, by omega⟩
  let axy ← accumulate (xi.toNat * (y.get next).toNat + (row.1.get next).toNat)
  let umc ← accumulate (u.toNat * (modulus.get next).toNat + row.2)
  let sum := overflowingAdd axy umc
  pure (row.1.set ⟨j, by omega⟩ (lo sum.1), wideCarry sum)

/-- One pass of the outer loop, with the carry above the array. -/
def montgomeryRow (x y modulus : Uint n) (modNegInv : UInt64) (state : Uint n × ℕ) (i : Fin n) :
    Checked (Uint n × ℕ) := do
  let first : Fin n := ⟨0, i.pos⟩
  let xi := x.get i
  let axy ← accumulate (xi.toNat * (y.get first).toNat + (state.1.get first).toNat)
  let u := lo axy * modNegInv
  let um ← accumulate (u.toNat * (modulus.get first).toNat)
  let row ← Fin.foldlM (n - 1) (montgomeryLimb xi u y modulus)
    (state.1, wideCarry (overflowingAdd um axy))
  let carry ← accumulate (row.2 + state.2)
  pure (row.1.set ⟨n - 1, Nat.sub_lt i.pos one_pos⟩ (lo carry), carry >>> 64)

def montgomeryMultiplyInner (x y modulus : Uint n) (modNegInv : UInt64) :
    Checked (Uint n × UInt64) := do
  let state ← Fin.foldlM n (montgomeryRow x y modulus modNegInv) (Uint.zero, 0)
  pure (state.1, lo state.2)

def mulMontgomeryForm (a b modulus : Uint n) (modNegInv : UInt64) : Uint n :=
  let (out, carry) := (montgomeryMultiplyInner a b modulus modNegInv).value
  (out.trySubWithCarry carry modulus).1

/-- One pass of a reduction of twice the limbs. The limb that it clears is not stored. -/
def reductionRow (modulus : Uint n) (modNegInv : UInt64) (state : Words (2 * n) × UInt64)
    (i : Fin n) : Checked (Words (2 * n) × UInt64) := do
  let lowest := state.1.get ⟨i, lt_double i⟩
  let u := lowest * modNegInv
  let first ← accumulate (u.toNat * (modulus.get ⟨0, i.pos⟩).toNat + lowest.toNat)
  let row ← Fin.foldlM (n - 1) (fun row j =>
    accumulateAt row.1 ⟨i + (j + 1), add_succ_lt_double i j⟩
      (u.toNat * (modulus.get ⟨j + 1, succ_lt_of_pred j⟩).toNat) row.2) (state.1, hi first)
  accumulateAt row.1 ⟨i + n, add_lt_double i⟩ row.2.toNat state.2

/-- The lower and the upper limbs are the halves of one array. -/
def montgomeryReductionInner (wide : Words (2 * n)) (modulus : Uint n) (modNegInv : UInt64) :
    Checked (Words (2 * n) × UInt64) :=
  Fin.foldlM n (reductionRow modulus modNegInv) (wide, 0)

def upperHalf (wide : Words (2 * n)) : Uint n := ⟨wide.1.drop n, by
  rw [List.length_drop, wide.2]
  omega⟩

def montgomeryReduction (wide : Words (2 * n)) (modulus : Uint n) (modNegInv : UInt64) : Uint n :=
  let (wide, metaCarry) := (montgomeryReductionInner wide modulus modNegInv).value
  ((upperHalf wide).trySubWithCarry metaCarry modulus).1

/-- Four limbs are squared first and reduced then. -/
def squareMontgomeryForm (a modulus : Uint n) (modNegInv : UInt64) : Uint n :=
  if h : n = 4 then
    montgomeryReduction (Schoolbook.squareWide (by omega) a).value modulus modNegInv
  else
    let (out, carry) := (montgomeryMultiplyInner a a modulus modNegInv).value
    (out.trySubWithCarry carry modulus).1

/-- The rounds of a repeated squaring after the first `count`; the last one keeps its carry. -/
def squareRounds (modulus : Uint n) (modNegInv : UInt64) : ℕ → Uint n → Uint n × UInt64
  | 0, base => (montgomeryMultiplyInner base base modulus modNegInv).value
  | count + 1, base =>
    let (out, carry) := (montgomeryMultiplyInner base base modulus modNegInv).value
    squareRounds modulus modNegInv count (out.conditionalBorrowingSub modulus (carry != 0)).1

def squareRepeatMontgomeryForm (a : Uint n) (count : ℕ) (modulus : Uint n) (modNegInv : UInt64) :
    Uint n :=
  if count = 0 then a
  else if count = 1 then squareMontgomeryForm a modulus modNegInv
  else
    let (out, carry) := squareRounds modulus modNegInv (count - 1) a
    let (out, carry) := out.trySubWithCarry carry modulus
    (out.trySubWithCarry carry modulus).1

/-- The next limb on the way out: the running carry sits in the output. -/
def retrieveLimb (u : UInt64) (modulus out : Uint n) (j : Fin (n - 1)) : Uint n :=
  let next : Fin n := ⟨j + 1, by omega⟩
  let previous : Fin n := ⟨j, by omega⟩
  let (low, high) := carryingMulAdd u (modulus.get next) (out.get next) (out.get previous)
  (out.set previous low).set next high

def retrieveRow (x modulus : Uint n) (modNegInv : UInt64) (out : Uint n) (i : Fin n) : Uint n :=
  let first : Fin n := ⟨0, i.pos⟩
  let xi := x.get i
  let u := (out.get first + xi) * modNegInv
  let out := out.set first (carryingMulAdd u (modulus.get first) xi (out.get first)).2
  Fin.foldl (n - 1) (retrieveLimb u modulus) out

def montgomeryRetrieve (montgomeryForm modulus : Uint n) (modNegInv : UInt64) : Uint n :=
  Fin.foldl n (retrieveRow montgomeryForm modulus modNegInv) Uint.zero

/-- The inverse of an odd number modulo `2 ^ 64`. -/
def u64InvertOdd (value : UInt64) : UInt64 :=
  let x := value * 3 ^^^ 2
  let y := 1 - x * value
  let (x, y) := (x * (y + 1), y * y)
  let (x, y) := (x * (y + 1), y * y)
  let (x, y) := (x * (y + 1), y * y)
  x * (y + 1)

/-- `Odd<Uint<LIMBS>>`. -/
abbrev OddUint (n : ℕ) := { modulus : Uint n // value modulus.1 % 2 = 1 }

def Uint.lowestU64 (x : Uint n) : UInt64 := x.1.headD 0

/-- The integer in limbs, cut to their number. -/
def Uint.ofNat (n integer : ℕ) : Uint n := ⟨leWords n integer, leWords_length n integer⟩

def Uint.max : Uint n := .replicate n 0xffffffffffffffff

def Uint.remVartime (x modulus : Uint n) : Uint n := .ofNat n (value x.1 % value modulus.1)

def Uint.squareModVartime (x modulus : Uint n) : Uint n :=
  .ofNat n (value x.1 * value x.1 % value modulus.1)

/-- The parameters of a modulus: `R` and `R ^ 2` modulo it, and its inverse modulo a word. -/
structure MontyParams (n : ℕ) where
  modulus : OddUint n
  one : Uint n
  r2 : Uint n
  modInv : UInt64
  one_eq : value one.1 = wordBase ^ n % value modulus.1.1
  r2_eq : value r2.1 = wordBase ^ n * wordBase ^ n % value modulus.1.1
  modInv_eq : modInv.toNat * value modulus.1.1 % wordBase = 1

/-- The limb of `R` modulo the modulus: one more than the remainder of `R - 1`. -/
def montyOne (modulus : Uint n) : Uint n :=
  let one := (Uint.max.remVartime modulus).wrappingAdd (.ofNat n 1)
  .select one .zero (one.eq modulus)

namespace MontyParams

variable (params : MontyParams n)

def modNegInv : UInt64 := 0 - params.modInv

/-- The multiplication with the parameters filled in. -/
def mul (a b : Uint n) : Uint n := mulMontgomeryForm a b params.modulus.1 params.modNegInv

/-- The powers `0` to `15` of the base. -/
def power (x : Uint n) : ℕ → Uint n
  | 0 => params.one
  | 1 => x
  | i + 2 => params.mul (power x (i + 1)) x

def computePowers (x : Uint n) : List.Vector (Uint n) 16 := .ofFn fun i => params.power x i

end MontyParams

/-- The limb, the window in it and the mask of the window where the exponent starts. -/
def powInit (exponentBits : ℕ) : ℕ × ℕ × UInt64 :=
  let startingBitInLimb := (exponentBits - 1) % 64
  ((exponentBits - 1) / 64, startingBitInLimb / 4, (1 <<< UInt64.ofNat (startingBitInLimb % 4 + 1)) - 1)

/-- The table entry, by a comparison with every index. -/
def selectPower (powers : List.Vector (Uint n) 16) (idx : UInt64) : Uint n :=
  Fin.foldl 15 (fun power j => Uint.select power (powers.get j.succ) (UInt64.ofNat (j + 1) == idx))
    powers.head

/-- One window of the exponent. -/
def powWindow (params : MontyParams n) (powers : List.Vector (Uint n) 16) (exponent : Uint k)
    (exponentBits limbNum : ℕ) (z : Uint n) (windowNum : ℕ) : Uint n :=
  let (startingLimb, startingWindow, startingWindowMask) := powInit exponentBits
  let first := limbNum == startingLimb && windowNum == startingWindow
  let z := if first then z
    else squareRepeatMontgomeryForm z 4 params.modulus.1 params.modNegInv
  let w := exponent.1.getD limbNum 0
  let idx := (w >>> UInt64.ofNat (windowNum * 4)) &&& 15
  let idx := if first then idx &&& startingWindowMask else idx
  params.mul z (selectPower powers idx)

/-- `pow_montgomery_form`, constant time in the exponent. -/
def powMontgomeryForm (x : Uint n) (exponent : Uint k) (exponentBits : ℕ) (params : MontyParams n) :
    Uint n :=
  let exponentBits := if exponentBits > 64 * k then 64 * k else exponentBits
  if exponentBits = 0 then params.one
  else
    let powers := params.computePowers x
    let (startingLimb, startingWindow, _) := powInit exponentBits
    (List.range (startingLimb + 1)).reverse.foldl (fun z limbNum =>
      (List.range (if limbNum = startingLimb then startingWindow + 1 else 16)).reverse.foldl
        (powWindow params powers exponent exponentBits limbNum) z) params.one

/-- `ConstMontyForm`: a number below the modulus. -/
@[ext]
structure MontyForm (params : MontyParams n) where
  montgomeryForm : Uint n
  reduced : value montgomeryForm.1 < value params.modulus.1.1

end X301Provider.BigInt
