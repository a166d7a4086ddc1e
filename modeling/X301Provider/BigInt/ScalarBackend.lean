import X301Provider.BigInt.MontyForm
import X301Provider.Signature.ScalarSpec

/-!
# Scalars on the Montgomery backend

The scalar operations as they run on five limbs, with the Montgomery forms of the group order.
They compute the canonical residues, and the response of a signature is the sum of the nonce
and the product of challenge and secret.
-/

namespace X301Provider.BigInt

open Limbs

def scalarModulusWords : Uint 5 :=
  ⟨[0x2602e3a1d0be9603, 0x0892809847fb4a31, 0x000000000016dcc8, 0x0000000000000000,
    0x0000080000000000], rfl⟩

theorem value_scalarModulusWords : value scalarModulusWords.1 = L ∧ L % 2 = 1 := by decide +kernel

def scalarModulus : OddUint 5 := ⟨scalarModulusWords, by
  rw [value_scalarModulusWords.1]
  exact value_scalarModulusWords.2⟩

/-- The parameters of `ScalarModulus`. -/
def scalarParams : MontyParams 5 := .newVartime scalarModulus

theorem scalarParams_m : scalarParams.m = L := value_scalarModulusWords.1

/-- A scalar in the limbs of the backend. -/
structure LimbScalar where
  integer : Uint 5

namespace LimbScalar

/-- The bytes widened to five words. -/
def uintFromLe38 (bytes : Bytes 38) : Uint 5 :=
  ⟨wordsOfBytes 5 (bytes.1 ++ [0, 0]), wordsOfBytes_length 5 _⟩

def fromCanonicalBytes (bytes : Bytes 38) : CtOption LimbScalar :=
  let integer := uintFromLe38 bytes
  ⟨⟨integer⟩, integer.ctLt scalarModulusWords⟩

def reducePrunedLe (bytes : Bytes 38) : LimbScalar :=
  ⟨(MontyForm.new scalarParams (uintFromLe38 bytes)).retrieve⟩

def radix304Words : Uint 5 := ⟨[0, 0, 0, 0, 0x0001000000000000], rfl⟩

/-- `2 ^ 304` in Montgomery form. -/
def radix304 : MontyForm scalarParams := .new scalarParams radix304Words

def reduceHashLe (bytes : Bytes 76) : LimbScalar :=
  let low := uintFromLe38 (Scalar.lowHalf bytes)
  let high := uintFromLe38 (Scalar.highHalf bytes)
  let lowReduced := MontyForm.new scalarParams low
  let highReduced := MontyForm.new scalarParams high
  let highShifted := highReduced.mul radix304
  let combined := highShifted.add lowReduced
  ⟨combined.retrieve⟩

def writeCanonicalBytes (s : LimbScalar) : Bytes 38 :=
  ⟨(s.integer.1.flatMap wordToBytes).take 38, by
    rw [List.length_take, List.length_flatMap]
    simp [s.integer.2]⟩

def add (x y : LimbScalar) : LimbScalar := ⟨x.integer.addMod y.integer scalarModulusWords⟩

def mul (x y : LimbScalar) : LimbScalar :=
  let left := MontyForm.new scalarParams x.integer
  let right := MontyForm.new scalarParams y.integer
  let product := left.mul right
  ⟨product.retrieve⟩

/-- The limbs of a scalar of the model. -/
def ofScalar (s : Scalar) : LimbScalar := ⟨Scalar.toWords s.integer⟩

/-- The canonical representative of a number modulo `L`. -/
def Repr (s : LimbScalar) (m : ℕ) : Prop := value s.integer.1 = m % L

variable {x y : LimbScalar} {s : Scalar} {j m : ℕ}

theorem value_ofScalar (s : Scalar) : value (ofScalar s).integer.1 = s.integer.toNat := by
  have hBase : wordBase ^ 5 = 2 ^ 320 := by rw [wordBase, ← pow_mul]
  have hLt := s.integer.isLt
  rw [← hBase] at hLt
  rw [ofScalar, Scalar.toWords, value_leWords, Nat.mod_eq_of_lt hLt]

/-- The limbs hold the number of the model's scalar. -/
theorem eq_ofScalar (h : value x.integer.1 = s.integer.toNat) : x = ofScalar s := by
  obtain ⟨integer⟩ := x
  exact congrArg LimbScalar.mk (words_ext (h.trans (value_ofScalar s).symm))

theorem Repr.eq_ofScalar (hx : x.Repr m) (hs : s.Repr m) : x = ofScalar s :=
  LimbScalar.eq_ofScalar (hx.trans hs.symm)

theorem repr_ofScalar (hs : s.Repr m) : (ofScalar s).Repr m := (value_ofScalar s).trans hs

theorem value_uintFromLe38 (bytes : Bytes 38) : value (uintFromLe38 bytes).1 = bytesValue bytes.1 := by
  have hLength : (bytes.1 ++ [0, 0]).length ≤ 8 * 5 := by rw [List.length_append, bytes.2]; decide
  have hZero : bytesValue [0, 0] = 0 := rfl
  rw [uintFromLe38, value_wordsOfBytes hLength, bytesValue_append, hZero, mul_zero, add_zero]

/-- Leaving Montgomery form gives the canonical representative. -/
theorem repr_retrieve {form : MontyForm scalarParams} (h : form.toZMod = (m : ZMod scalarParams.m)) :
    Repr ⟨form.retrieve⟩ m := by
  rw [Repr, ← MontyForm.val_toZMod, h, ZMod.val_natCast, scalarParams_m]

theorem repr_reducePrunedLe (bytes : Bytes 38) :
    (reducePrunedLe bytes).Repr (bytesValue bytes.1) := by
  apply repr_retrieve
  rw [MontyForm.toZMod_new, value_uintFromLe38]

theorem toZMod_radix304 : radix304.toZMod = ((256 ^ 38 : ℕ) : ZMod scalarParams.m) := by
  have hValue : value radix304Words.1 = 256 ^ 38 := by decide +kernel
  rw [radix304, MontyForm.toZMod_new, hValue]

theorem bytesValue_halves (bytes : Bytes 76) : bytesValue bytes.1 =
    bytesValue (Scalar.highHalf bytes).1 * 256 ^ 38 + bytesValue (Scalar.lowHalf bytes).1 := by
  have hAppend := bytesValue_append (Scalar.lowHalf bytes).1 (Scalar.highHalf bytes).1
  have hBytes : (Scalar.lowHalf bytes).1 ++ (Scalar.highHalf bytes).1 = bytes.1 :=
    List.take_append_drop 38 bytes.1
  rw [hBytes, (Scalar.lowHalf bytes).2] at hAppend
  rw [hAppend, add_comm, mul_comm]

theorem repr_reduceHashLe (bytes : Bytes 76) :
    (reduceHashLe bytes).Repr (bytesValue bytes.1) := by
  apply repr_retrieve
  rw [MontyForm.toZMod_add, MontyForm.toZMod_mul, toZMod_radix304, MontyForm.toZMod_new,
    MontyForm.toZMod_new, value_uintFromLe38, value_uintFromLe38, bytesValue_halves, Nat.cast_add,
    Nat.cast_mul]

theorem repr_mul (x y : LimbScalar) : (x.mul y).Repr (value x.integer.1 * value y.integer.1) := by
  apply repr_retrieve
  rw [MontyForm.toZMod_mul, MontyForm.toZMod_new, MontyForm.toZMod_new, Nat.cast_mul]

theorem Repr.mul (hx : x.Repr m) (hy : y.Repr j) : (x.mul y).Repr (m * j) := by
  have hProduct := repr_mul x y
  rwa [Repr, hx, hy, ← Nat.mul_mod] at hProduct

theorem Repr.add (hx : x.Repr m) (hy : y.Repr j) : (x.add y).Repr (m + j) := by
  have hSum : value x.integer.1 + value y.integer.1 < 2 * value scalarModulusWords.1 := by
    have hm := Nat.mod_lt m prime_L.pos
    have hj := Nat.mod_lt j prime_L.pos
    rw [hx, hy, value_scalarModulusWords.1]
    omega
  have hAdd := Uint.addMod_value _ _ _ hSum
  rw [hx, hy, value_scalarModulusWords.1, ← Nat.add_mod] at hAdd
  exact hAdd

theorem writeCanonicalBytes_ofScalar (s : Scalar) :
    (ofScalar s).writeCanonicalBytes = s.writeCanonicalBytes := rfl

/-- The limbs simulate the scalars of the model, operation by operation. -/
theorem refines_scalar :
    (∀ bytes, (fromCanonicalBytes bytes).isSome = (Scalar.fromCanonicalBytes bytes).isSome ∧
      (fromCanonicalBytes bytes).value = ofScalar (Scalar.fromCanonicalBytes bytes).value) ∧
    (∀ bytes, reducePrunedLe bytes = ofScalar (Scalar.reducePrunedLe bytes)) ∧
    (∀ bytes, reduceHashLe bytes = ofScalar (Scalar.reduceHashLe bytes)) ∧
    (∀ x y : Scalar, (ofScalar x).mul (ofScalar y) = ofScalar (x.mul y)) ∧
    (∀ x y : Scalar, x.integer.toNat < L → y.integer.toNat < L →
      (ofScalar x).add (ofScalar y) = ofScalar (x.add y)) ∧
    ∀ s : Scalar, (ofScalar s).writeCanonicalBytes = s.writeCanonicalBytes := by
  refine ⟨?decode, ?pruned, ?hash, ?mul, ?add, writeCanonicalBytes_ofScalar⟩
  case decode =>
    intro bytes
    have hValue : value (uintFromLe38 bytes).1 = (Scalar.uintFromLe38 bytes).toNat := by
      rw [value_uintFromLe38, Scalar.uintFromLe38_toNat]
    refine ⟨?_, LimbScalar.eq_ofScalar hValue⟩
    rw [fromCanonicalBytes, Uint.ctLt_eq, hValue, value_scalarModulusWords.1]
    rfl
  case pruned =>
    intro bytes
    exact (repr_reducePrunedLe bytes).eq_ofScalar (Scalar.repr_reducePrunedLe bytes)
  case hash =>
    intro bytes
    exact (repr_reduceHashLe bytes).eq_ofScalar (Scalar.repr_reduceHashLe bytes)
  case mul =>
    intro x y
    have hModel := Scalar.repr_retrieve (x.integer.toNat * y.integer.toNat)
    have hLimbs := repr_mul (ofScalar x) (ofScalar y)
    rw [Nat.cast_mul] at hModel
    rw [value_ofScalar, value_ofScalar] at hLimbs
    exact hLimbs.eq_ofScalar hModel
  case add =>
    intro x y hx hy
    have hxRepr : x.Repr x.integer.toNat := (Nat.mod_eq_of_lt hx).symm
    have hyRepr : y.Repr y.integer.toNat := (Nat.mod_eq_of_lt hy).symm
    exact ((repr_ofScalar hxRepr).add (repr_ofScalar hyRepr)).eq_ofScalar (hxRepr.add hyRepr)

/-- The bytes of a signature's response, from the two hashes and the pruned secret. -/
theorem response_exact (nonce challenge : Bytes 76) (secret : Bytes 38) :
    bytesValue (((reduceHashLe nonce).add
        ((reduceHashLe challenge).mul (reducePrunedLe secret))).writeCanonicalBytes).1 =
      (bytesValue nonce.1 + bytesValue challenge.1 * bytesValue secret.1) % L := by
  have hResponse := (repr_reduceHashLe nonce).add
    ((repr_reduceHashLe challenge).mul (repr_reducePrunedLe secret))
  have hLt := Nat.mod_lt (bytesValue nonce.1 + bytesValue challenge.1 * bytesValue secret.1)
    prime_L.pos
  rw [writeCanonicalBytes, bytesValue_take, bytesValue_flatMap_wordToBytes, hResponse,
    Nat.mod_eq_of_lt (hLt.trans L_numeric.2.2.2.1)]

end LimbScalar

end X301Provider.BigInt
