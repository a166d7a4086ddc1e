import X301Provider.Field.Codec
import X301Provider.Library.WordLoops

/-!
# Fixed-size integers of the big-integer library

Integers of any number of limbs with the carrying and borrowing operations that the modular
arithmetic is built on. A borrow is a mask, all ones or zero.
-/

namespace X301Provider.BigInt

open Limbs

/-- `Uint<LIMBS>`. -/
abbrev Uint (n : ℕ) := Words n

def overflowingSub (lhs rhs : UInt64) : UInt64 × Bool := (lhs - rhs, decide (lhs < rhs))

/-- Only the top bit of the borrow counts. -/
def borrowingSub (lhs rhs borrow : UInt64) : UInt64 × UInt64 :=
  let (ret, b2) := overflowingSub lhs (borrow >>> 63)
  let (ret, b1) := overflowingSub ret rhs
  (ret, 0 - (b1 || b2).toUInt64)

def carryingMulAdd (lhs rhs addend carry : UInt64) : UInt64 × UInt64 :=
  let ret := u128 (lhs.toNat * rhs.toNat + addend.toNat + carry.toNat)
  (lo ret, hi ret)

namespace Uint

variable {n : ℕ}

def zero : Uint n := .replicate n 0

def carryingAdd (x y : Uint n) (carry : UInt64) : Uint n × UInt64 :=
  let pass := carryChain (List.zipWith (fun l r => l.toNat + r.toNat) x.1 y.1) carry
  (⟨pass.1, by simp [pass, x.2, y.2]⟩, pass.2)

def borrowingSub (x y : Uint n) (borrow : UInt64) : Uint n × UInt64 :=
  let pass := borrowChain BigInt.borrowingSub x.1 y.1 borrow
  (⟨pass.1, by rw [borrowChain_length _ (x.2.trans y.2.symm), x.2]⟩, pass.2)

def wrappingAdd (x y : Uint n) : Uint n := (x.carryingAdd y 0).1

def bitandLimb (x : Uint n) (rhs : UInt64) : Uint n := x.map (· &&& rhs)

def select (a b : Uint n) (choice : Bool) : Uint n := if choice then b else a

def isZero (x : Uint n) : Bool := x.1.foldl (· ||| ·) 0 == 0

def eq (x y : Uint n) : Bool := (List.zipWith (· ^^^ ·) x.1 y.1).foldl (· ||| ·) 0 == 0

/-- The borrow of a subtraction. -/
def ctLt (x y : Uint n) : Bool := lsb (x.borrowingSub y 0).2

/-- Subtract from the number with a carry limb, or leave it if there is less. -/
def trySubWithCarry (x : Uint n) (carry : UInt64) (rhs : Uint n) : Uint n × UInt64 :=
  let (out, borrow) := x.borrowingSub rhs 0
  let revert := lsb borrow && carry == 0
  let carry := (BigInt.borrowingSub carry 0 (if revert then 0 else borrow)).2
  (select out x revert, carry)

def conditionalBorrowingSub (x rhs : Uint n) (choice : Bool) : Uint n × Bool :=
  let mask : UInt64 := if choice then 0xffffffffffffffff else 0
  let pass := x.borrowingSub (rhs.bitandLimb mask) 0
  (pass.1, lsb pass.2)

/-- One limb of a shift by one bit. -/
def shl1Limb (state : Uint n × UInt64) (i : Fin n) : Uint n × UInt64 :=
  (state.1.set i ((state.1.get i <<< 1) ||| state.2), state.1.get i >>> 63)

def shl1WithCarry (x : Uint n) (carry : UInt64) : Uint n × UInt64 :=
  Fin.foldl n shl1Limb (x, carry)

def addMod (x y p : Uint n) : Uint n :=
  let (w, carry) := x.carryingAdd y 0
  (w.trySubWithCarry carry p).1

def doubleMod (x p : Uint n) : Uint n :=
  let (w, carry) := x.shl1WithCarry 0
  (w.trySubWithCarry carry p).1

def subMod (x y p : Uint n) : Uint n :=
  let (out, mask) := x.borrowingSub y 0
  out.wrappingAdd (p.bitandLimb mask)

def negMod (x p : Uint n) : Uint n := if x.isZero then zero else (p.borrowingSub x 0).1

end Uint

/-- The bit that a borrow stands for. -/
def borrowBit (borrow : UInt64) : ℕ := borrow.toNat / 2 ^ 63

theorem borrowBit_le (borrow : UInt64) : borrowBit borrow ≤ 1 := by
  have hLt := borrow.toNat_lt
  unfold borrowBit
  omega

def maskOf (choice : Bool) : UInt64 := 0 - choice.toUInt64

theorem borrowBit_maskOf (choice : Bool) : borrowBit (maskOf choice) = choice.toNat := by
  cases choice <;> rfl

theorem lsb_maskOf (choice : Bool) : lsb (maskOf choice) = choice := by
  cases choice <;> rfl

theorem overflowingSub_spec (lhs rhs : UInt64) :
    (overflowingSub lhs rhs).1.toNat + rhs.toNat =
      lhs.toNat + wordBase * (overflowingSub lhs rhs).2.toNat := by
  have hLhs := lhs.toNat_lt
  have hRhs := rhs.toNat_lt
  have hSub := UInt64.toNat_sub lhs rhs
  have hLess : lhs < rhs ↔ lhs.toNat < rhs.toNat := UInt64.lt_iff_toNat_lt
  simp only [overflowingSub, wordBase]
  by_cases h : lhs < rhs
  · have hNat := hLess.mp h
    rw [decide_eq_true h, Bool.toNat_true]
    omega
  · have hNat := mt hLess.mpr h
    rw [decide_eq_false h, Bool.toNat_false]
    omega

theorem borrowingSub_spec (lhs rhs borrow : UInt64) :
    (borrowingSub lhs rhs borrow).1.toNat + rhs.toNat + borrowBit borrow =
      lhs.toNat + wordBase * borrowBit (borrowingSub lhs rhs borrow).2 := by
  have hShift : (borrow >>> 63).toNat = borrowBit borrow := by
    rw [UInt64.toNat_shiftRight, Nat.shiftRight_eq_div_pow]
    rfl
  have hBit := borrowBit_le borrow
  have hFirst := overflowingSub_spec lhs (borrow >>> 63)
  have hSecond := overflowingSub_spec (overflowingSub lhs (borrow >>> 63)).1 rhs
  have hLhs := lhs.toNat_lt
  have hRhs := rhs.toNat_lt
  have hLast := (overflowingSub (overflowingSub lhs (borrow >>> 63)).1 rhs).1.toNat_lt
  simp only [borrowingSub]
  rw [← maskOf, borrowBit_maskOf]
  rw [hShift] at hFirst
  -- at most one of the two subtractions wraps
  cases hb2 : (overflowingSub lhs (borrow >>> 63)).2 <;>
    cases hb1 : (overflowingSub (overflowingSub lhs (borrow >>> 63)).1 rhs).2 <;>
    simp only [hb1, hb2, Bool.toNat_true, Bool.toNat_false, Bool.or_true, Bool.or_false, wordBase]
      at hFirst hSecond ⊢ <;>
    omega

theorem borrowingSub_mask (lhs rhs borrow : UInt64) :
    ∃ choice, (borrowingSub lhs rhs borrow).2 = maskOf choice := ⟨_, rfl⟩

theorem borrowChain_mask (left right : List UInt64) {borrow : UInt64}
    (h : ∃ choice, borrow = maskOf choice) :
    ∃ choice, (borrowChain borrowingSub left right borrow).2 = maskOf choice := by
  induction left generalizing right borrow with
  | nil => exact h
  | cons l left ih =>
    cases right with
    | nil => exact h
    | cons r right => exact ih right (borrowingSub_mask l r borrow)

/-- What is left of a sum below the radix when the carry is dropped. -/
theorem wrapped_eq {radix low carry value multiple : ℕ} (hLow : low < radix) (hValue : value < radix)
    (h : low + radix * carry = value + radix * multiple) : low = value := by
  have hMod := congrArg (· % radix) h
  simp only [Nat.add_mul_mod_self_left, Nat.mod_eq_of_lt hLow, Nat.mod_eq_of_lt hValue] at hMod
  exact hMod

theorem carryingMulAdd_spec (lhs rhs addend carry : UInt64) :
    (carryingMulAdd lhs rhs addend carry).1.toNat +
        wordBase * (carryingMulAdd lhs rhs addend carry).2.toNat =
      lhs.toNat * rhs.toNat + addend.toNat + carry.toNat := by
  have hLt := (fits_mul_add lhs rhs addend).accumulator_lt carry
  simp only [carryingMulAdd, u128_eq hLt]
  exact lo_add_hi hLt

namespace Uint

variable {n : ℕ} (x y p : Uint n)

@[simp] theorem value_zero : value (zero : Uint n).1 = 0 := value_replicate_zero n

theorem carryingAdd_value (carry : UInt64) :
    value (x.carryingAdd y carry).1.1 + wordBase ^ n * (x.carryingAdd y carry).2.toNat =
      value x.1 + value y.1 + carry.toNat := by
  have hLength := x.2.trans y.2.symm
  have hFits : ∀ column ∈ List.zipWith (fun l r : UInt64 => l.toNat + r.toNat) x.1 y.1,
      Fits column := by
    intro column hColumn
    obtain ⟨i, hi, rfl⟩ := List.mem_iff_getElem.mp hColumn
    rw [List.getElem_zipWith]
    exact fits_add _ _
  have hChain := carryChain_value _ hFits carry
  rw [columnSum_add hLength, List.length_zipWith, x.2, y.2, Nat.min_self] at hChain
  exact hChain

theorem borrowingSub_value (borrow : UInt64) :
    value (x.borrowingSub y borrow).1.1 + value y.1 + borrowBit borrow =
      value x.1 + wordBase ^ n * borrowBit (x.borrowingSub y borrow).2 := by
  have hChain := (borrowChain_value_by (fun l r b _ => ⟨borrowBit_le _, borrowingSub_spec l r b⟩)
    (x.2.trans y.2.symm) (borrowBit_le borrow)).2
  rw [x.2] at hChain
  exact hChain

/-- A subtraction from no borrow compares, and wraps when it borrows. -/
theorem borrowingSub_exact :
    (x.borrowingSub y 0).2 = maskOf (decide (value x.1 < value y.1)) ∧
      value (x.borrowingSub y 0).1.1 + value y.1 =
        value x.1 + wordBase ^ n * (decide (value x.1 < value y.1)).toNat := by
  have hValue := borrowingSub_value x y 0
  have hZero : borrowBit 0 = 0 := rfl
  obtain ⟨choice, hMask⟩ := borrowChain_mask x.1 y.1 ⟨false, rfl⟩
  have hBorrow : (x.borrowingSub y 0).2 = maskOf choice := hMask
  rw [hZero, add_zero, hBorrow, borrowBit_maskOf] at hValue
  have hOut := value_words_lt (x.borrowingSub y 0).1
  have hy := value_words_lt y
  have hChoice : choice = decide (value x.1 < value y.1) := by
    rw [Bool.eq_iff_iff, decide_eq_true_eq]
    cases choice with
    | true =>
      rw [Bool.toNat_true, mul_one] at hValue
      exact iff_of_true rfl (by omega)
    | false =>
      rw [Bool.toNat_false, mul_zero] at hValue
      exact iff_of_false Bool.false_ne_true (by omega)
  rw [hBorrow, ← hChoice]
  exact ⟨rfl, hValue⟩

theorem ctLt_eq : x.ctLt y = decide (value x.1 < value y.1) := by
  rw [ctLt, (borrowingSub_exact x y).1, lsb_maskOf]

/-- At most one multiple of the subtrahend is taken from a number with a carry bit. -/
theorem trySubWithCarry_exact {carry : UInt64} (hCarry : carry.toNat ≤ 1)
    (hTotal : value x.1 + wordBase ^ n * carry.toNat < value p.1 + wordBase ^ n) :
    value (x.trySubWithCarry carry p).1.1 =
        (if value x.1 + wordBase ^ n * carry.toNat < value p.1 then
          value x.1 + wordBase ^ n * carry.toNat
        else value x.1 + wordBase ^ n * carry.toNat - value p.1) ∧
      (x.trySubWithCarry carry p).2 = 0 := by
  obtain ⟨hBorrow, hValue⟩ := borrowingSub_exact x p
  have hp := value_words_lt p
  simp only [trySubWithCarry, hBorrow, lsb_maskOf]
  cases Nat.le_one_iff_eq_zero_or_eq_one.mp hCarry with
  | inl hNone =>
    obtain rfl : carry = 0 := UInt64.toNat_inj.mp hNone
    rw [hNone, mul_zero, add_zero]
    by_cases hLess : value x.1 < value p.1
    · rw [decide_eq_true hLess, if_pos hLess]
      exact ⟨rfl, rfl⟩
    · rw [decide_eq_false hLess, Bool.toNat_false, mul_zero, add_zero] at hValue
      rw [decide_eq_false hLess, if_neg hLess]
      exact ⟨by simp only [Bool.false_and, select, Bool.false_eq_true, if_false]; omega, rfl⟩
  | inr hOne =>
    obtain rfl : carry = 1 := UInt64.toNat_inj.mp hOne
    rw [hOne, mul_one] at hTotal ⊢
    have hLess : value x.1 < value p.1 := by omega
    rw [decide_eq_true hLess, Bool.toNat_true, mul_one] at hValue
    rw [decide_eq_true hLess, if_neg (by omega)]
    refine ⟨?_, rfl⟩
    have hKeep : (true && (1 : UInt64) == 0) = false := rfl
    rw [hKeep, select, if_neg Bool.false_ne_true]
    omega

theorem bitandLimb_maskOf (choice : Bool) :
    value (x.bitandLimb (maskOf choice)).1 = if choice then value x.1 else 0 := by
  have hMap : (x.bitandLimb (maskOf choice)).1 = x.1.map (· &&& maskOf choice) :=
    List.Vector.toList_map x _
  rw [hMap]
  cases choice with
  | true =>
    have hSelf : ∀ word ∈ x.1, word &&& maskOf true = word := fun word _ =>
      UInt64.and_neg_one
    rw [List.map_congr_left hSelf, List.map_id', if_pos rfl]
  | false =>
    have hZero : ∀ word ∈ x.1, word &&& maskOf false = 0 := fun word _ => UInt64.and_zero
    rw [List.map_congr_left hZero, List.map_const', value_replicate_zero]
    rfl

theorem conditionalBorrowingSub_value {choice : Bool}
    (h : choice = true → value x.1 < value p.1) :
    value (x.conditionalBorrowingSub p choice).1.1 + (if choice then value p.1 else 0) =
      value x.1 + wordBase ^ n * choice.toNat := by
  have hMask : (if choice then 0xffffffffffffffff else 0 : UInt64) = maskOf choice := by
    cases choice <;> rfl
  have hValue := (borrowingSub_exact x (p.bitandLimb (maskOf choice))).2
  rw [bitandLimb_maskOf] at hValue
  simp only [conditionalBorrowingSub, hMask]
  cases choice with
  | true =>
    rw [if_pos rfl, decide_eq_true (h rfl)] at hValue
    exact hValue
  | false =>
    rw [if_neg Bool.false_ne_true, decide_eq_false (Nat.not_lt_zero _)] at hValue
    exact hValue

/-- One subtraction reduces a number below twice the modulus. -/
theorem trySubWithCarry_mod {carry : UInt64} (hCarry : carry.toNat ≤ 1)
    (hTotal : value x.1 + wordBase ^ n * carry.toNat < 2 * value p.1) :
    value (x.trySubWithCarry carry p).1.1 =
      (value x.1 + wordBase ^ n * carry.toNat) % value p.1 := by
  have hp := value_words_lt p
  rw [(trySubWithCarry_exact x p hCarry (by omega)).1]
  split_ifs with hLess
  · exact (Nat.mod_eq_of_lt hLess).symm
  · rw [Nat.mod_eq_sub_mod (Nat.le_of_not_lt hLess), Nat.mod_eq_of_lt (by omega)]

theorem addMod_value (h : value x.1 + value y.1 < 2 * value p.1) :
    value (x.addMod y p).1 = (value x.1 + value y.1) % value p.1 := by
  have hSum := carryingAdd_value x y 0
  have hZero : (0 : UInt64).toNat = 0 := rfl
  rw [hZero, add_zero] at hSum
  have hp := value_words_lt p
  have hCarry : (x.carryingAdd y 0).2.toNat ≤ 1 := by
    by_contra hLarge
    have hTwo := Nat.mul_le_mul_left (wordBase ^ n) (Nat.lt_of_not_le hLarge)
    omega
  have hTry := trySubWithCarry_mod (x.carryingAdd y 0).1 p hCarry (by omega)
  rw [hSum] at hTry
  exact hTry

theorem shl1WithCarry_value {carry : UInt64} (hCarry : carry.toNat ≤ 1) :
    value (x.shl1WithCarry carry).1.1 + wordBase ^ n * (x.shl1WithCarry carry).2.toNat =
        2 * value x.1 + carry.toNat ∧
      (x.shl1WithCarry carry).2.toNat ≤ 1 := by
  have hDoubled : DoubledBelow x carry n (x.shl1WithCarry carry) :=
    Fin.foldl_invariant (DoubledBelow x carry) (fun _ _ h => h.next) (.start x hCarry)
  have hValue := hDoubled.value_eq
  rw [value_take_length, ← two_mul] at hValue
  exact ⟨hValue, hDoubled.carry_le⟩

theorem doubleMod_value (h : value x.1 < value p.1) :
    value (x.doubleMod p).1 = 2 * value x.1 % value p.1 := by
  have hZero : (0 : UInt64).toNat = 0 := rfl
  obtain ⟨hValue, hCarry⟩ := shl1WithCarry_value x (hZero.trans_le (Nat.zero_le 1))
  rw [hZero, add_zero] at hValue
  have hTry := trySubWithCarry_mod (x.shl1WithCarry 0).1 p hCarry (by omega)
  rw [hValue] at hTry
  exact hTry

theorem subMod_value (hx : value x.1 < value p.1) (hy : value y.1 < value p.1) :
    value (x.subMod y p).1 = (value x.1 + (value p.1 - value y.1)) % value p.1 := by
  obtain ⟨hBorrow, hValue⟩ := borrowingSub_exact x y
  have hp := value_words_lt p
  have hSum := carryingAdd_value (x.borrowingSub y 0).1 (p.bitandLimb (x.borrowingSub y 0).2) 0
  have hZero : (0 : UInt64).toNat = 0 := rfl
  have hOut := value_words_lt
    ((x.borrowingSub y 0).1.carryingAdd (p.bitandLimb (x.borrowingSub y 0).2) 0).1
  rw [hZero, add_zero, hBorrow, bitandLimb_maskOf] at hSum
  rw [hBorrow] at hOut
  simp only [subMod, wrappingAdd, hBorrow]
  generalize hResult : (x.borrowingSub y 0).1.carryingAdd
    (p.bitandLimb (maskOf (decide (value x.1 < value y.1)))) 0 = result at hSum hOut ⊢
  by_cases hLess : value x.1 < value y.1
  · rw [decide_eq_true hLess, Bool.toNat_true, mul_one] at hValue
    rw [decide_eq_true hLess, if_pos rfl] at hSum
    have hCarry : value result.1.1 + wordBase ^ n * result.2.toNat =
        value x.1 + (value p.1 - value y.1) + wordBase ^ n * 1 := by omega
    rw [Nat.mod_eq_of_lt (by omega)]
    exact (wrapped_eq hOut (by omega) hCarry)
  · rw [decide_eq_false hLess, Bool.toNat_false, mul_zero, add_zero] at hValue
    rw [decide_eq_false hLess, if_neg Bool.false_ne_true, add_zero] at hSum
    have hCarry : value result.1.1 + wordBase ^ n * result.2.toNat =
        value x.1 - value y.1 + wordBase ^ n * 0 := by omega
    rw [Nat.mod_eq_sub_mod (by omega), Nat.mod_eq_of_lt (by omega)]
    rw [wrapped_eq hOut (by omega) hCarry]
    omega

theorem isZero_iff : x.isZero = true ↔ value x.1 = 0 := by
  rw [isZero, beq_iff_eq, Fe301.foldl_or_eq_zero]
  constructor
  · rintro ⟨-, h⟩
    rw [List.eq_replicate_of_mem h, value_replicate_zero]
  · intro h
    have hZero : x = zero := words_ext (by rw [h, value_zero])
    rw [hZero]
    exact ⟨rfl, fun word hWord => List.eq_of_mem_replicate hWord⟩

theorem eq_iff : x.eq y = true ↔ x = y := by
  have hLength := x.2.trans y.2.symm
  rw [eq, beq_iff_eq, Fe301.foldl_or_eq_zero, Fe301.xor_all_zero hLength]
  exact ⟨fun h => Subtype.ext h.2, fun h => ⟨rfl, congrArg Subtype.val h⟩⟩

theorem negMod_value (hx : value x.1 < value p.1) :
    value (x.negMod p).1 = (value p.1 - value x.1) % value p.1 := by
  have hValue := (borrowingSub_exact p x).2
  rw [decide_eq_false hx.not_gt, Bool.toNat_false, mul_zero, add_zero] at hValue
  rw [negMod]
  split_ifs with hZero
  · rw [(isZero_iff x).mp hZero, Nat.sub_zero, Nat.mod_self]
    exact value_zero
  · have hPos : 0 < value x.1 := Nat.pos_of_ne_zero (mt (isZero_iff x).mpr hZero)
    rw [Nat.mod_eq_of_lt (by omega)]
    omega

end Uint

end X301Provider.BigInt
