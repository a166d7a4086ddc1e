import X301Provider.Field.LazySpec

/-!
# Encodings, comparisons and inversion

A canonical element and its 38 bytes denote the same integer. The strict decoder
accepts exactly the integers below `p`; the X301 decoder masks the three high
bits and reduces once.
-/

namespace X301Provider

open Limbs

theorem bytesValue_lt_of (bytes : Bytes 38) : bytesValue bytes.1 < 256 ^ 38 := by
  have hLt := bytesValue_lt bytes.1
  rwa [bytes.2] at hLt

theorem bytes_ext {n : ℕ} {left right : Bytes n} (h : bytesValue left.1 = bytesValue right.1) :
    left = right :=
  Subtype.ext (bytesValue_injective (left.2.trans right.2.symm) h)

theorem value_decodeLimbs (bytes : Bytes 38) : value (decodeLimbs bytes).1 = bytesValue bytes.1 :=
  value_wordsOfBytes (by rw [bytes.2]; decide)

theorem bytesValue_split_last (bytes : Bytes 38) :
    bytesValue bytes.1 = bytesValue (bytes.1.take 37) + 256 ^ 37 * (bytes.get 37).toNat := by
  have hList : bytes.1.take 37 ++ [bytes.get 37] = bytes.1 := by
    obtain ⟨list, hList⟩ := bytes
    apply List.ext_getElem
    · simp [hList]
    · intro i hi hi'
      rw [List.getElem_append]
      split_ifs with h
      · rw [List.getElem_take]
      · rw [List.length_take, hList] at h
        have hBound : i < 38 := hi'.trans_eq hList
        obtain rfl : i = 37 := by omega
        simp [List.Vector.get, hList]
  have hLength : (bytes.1.take 37).length = 37 := by
    rw [List.length_take, bytes.2]
    decide
  conv_lhs => rw [← hList, bytesValue_append, hLength]
  simp

namespace Fe301

variable {x y : Fe301} {v w : Fp}

theorem bytesValue_modifyLast (bytes : Bytes 38) (f : UInt8 → UInt8) :
    bytesValue (modifyLast bytes f).1 =
      bytesValue (bytes.1.take 37) + 256 ^ 37 * (f (bytes.get 37)).toNat := by
  have hLength : (bytes.1.take 37).length = 37 := by
    rw [List.length_take, bytes.2]
    decide
  rw [modifyLast, bytesValue_append, hLength]
  simp

theorem bytesValue_mask (bytes : Bytes 38) :
    bytesValue (modifyLast bytes (· &&& 0x1f)).1 = bytesValue bytes.1 % 2 ^ 301 := by
  have hMask : ((bytes.get 37) &&& 0x1f).toNat = (bytes.get 37).toNat % 2 ^ 5 := by
    have hFive : (0x1f : UInt8).toNat = 2 ^ 5 - 1 := rfl
    rw [UInt8.toNat_and, hFive, Nat.and_two_pow_sub_one_eq_mod]
  have hPrefix := bytesValue_lt (bytes.1.take 37)
  have hLength : (bytes.1.take 37).length = 37 := by
    rw [List.length_take, bytes.2]
    decide
  have hPower : (2 : ℕ) ^ 301 = 256 ^ 37 * 2 ^ 5 := two_pow_bytes 37 5
  rw [hLength] at hPrefix
  rw [bytesValue_modifyLast, hMask, bytesValue_split_last bytes, hPower, Nat.mod_mul,
    Nat.add_mul_mod_self_left, Nat.mod_eq_of_lt hPrefix,
    Nat.add_mul_div_left _ _ (by decide), Nat.div_eq_of_lt hPrefix, zero_add]

theorem Repr.bytesValue (h : x.Repr v) : bytesValue x.toCanonicalBytes.1 = v.val := by
  have hLt := v.val_lt
  have hBound := P_lt_bytes
  rw [toCanonicalBytes, bytesValue_take, bytesValue_flatMap_wordToBytes, h,
    Nat.mod_eq_of_lt (hLt.trans hBound)]

theorem oracleBytes_value (v : Fp) : Limbs.bytesValue (oracleBytes v).1 = v.val := by
  have hLt := v.val_lt
  have hBound := P_lt_bytes
  rw [oracleBytes, bytesValue_leBytes, Nat.mod_eq_of_lt (hLt.trans hBound)]

theorem Repr.toCanonicalBytes (h : x.Repr v) : x.toCanonicalBytes = oracleBytes v :=
  bytes_ext (h.bytesValue.trans (oracleBytes_value v).symm)

theorem oracleBytes_injective : Function.Injective oracleBytes := by
  intro v w h
  apply ZMod.val_injective P
  rw [← oracleBytes_value v, h, oracleBytes_value]

theorem any_oracleBytes (v : Fp) : (oracleBytes v).1.any (· != 0) = decide (v ≠ 0) := by
  have hZero : v = 0 ↔ ∀ byte ∈ (oracleBytes v).1, byte = 0 := by
    rw [← bytesValue_eq_zero_iff, oracleBytes_value, ZMod.val_eq_zero]
  rw [Bool.eq_iff_iff, List.any_eq_true, decide_eq_true_eq, ne_eq, hZero,
    not_forall]
  simp

theorem fromCanonicalBytes_isSome (bytes : Bytes 38) :
    (fromCanonicalBytes bytes).isSome = decide (Limbs.bytesValue bytes.1 < P) := by
  obtain ⟨hLess, hGreater⟩ := subtractLimbsRuntime_spec (decodeLimbs bytes) modulus
  rw [value_modulus, value_decodeLimbs] at hLess hGreater
  simp only [fromCanonicalBytes]
  by_cases h : Limbs.bytesValue bytes.1 < P
  · rw [(hLess h).1, decide_eq_true h]
    rfl
  · rw [(hGreater (not_lt.mp h)).1, decide_eq_false h]
    rfl

theorem fromCanonicalBytes_repr {bytes : Bytes 38} (h : Limbs.bytesValue bytes.1 < P) :
    (fromCanonicalBytes bytes).value.Repr (Limbs.bytesValue bytes.1 : Fp) := by
  have hValue : Limbs.value (fromCanonicalBytes bytes).value.limbs.1 = Limbs.bytesValue bytes.1 :=
    value_decodeLimbs bytes
  exact repr_of_cast (by rwa [hValue]) (by rw [hValue])

theorem fromCanonicalBytes_oracleBytes (v : Fp) :
    (fromCanonicalBytes (oracleBytes v)).value.Repr v := by
  have hRepr := @fromCanonicalBytes_repr (oracleBytes v) (by
    rw [oracleBytes_value]
    exact v.val_lt)
  rwa [oracleBytes_value, ZMod.natCast_zmod_val] at hRepr

theorem fromX301Bytes_repr (bytes : Bytes 38) :
    (fromX301Bytes bytes).Repr ((Limbs.bytesValue bytes.1 % 2 ^ 301 : ℕ) : Fp) := by
  obtain ⟨-, -, -, -, -, hDouble⟩ := P_bounds
  have hMod := Nat.mod_lt (Limbs.bytesValue bytes.1) (Nat.two_pow_pos 301)
  have hValue : value (decodeLimbs (modifyLast bytes (· &&& 0x1f))).1 =
      Limbs.bytesValue bytes.1 % 2 ^ 301 := by
    rw [value_decodeLimbs, bytesValue_mask]
  apply repr_conditionalSubtract
  · rw [hValue]
    exact hMod.trans hDouble
  · rw [hValue]

theorem Repr.isOdd (h : x.Repr v) : x.isOdd = decide (v.val % 2 = 1) := by
  have hLow : value x.limbs.1 % 2 = x.limbs.head.toNat % 2 := by
    obtain ⟨⟨list, hList⟩⟩ := x
    match list, hList with
    | w₀ :: rest, _ =>
      have hHead : (List.Vector.head ⟨w₀ :: rest, by assumption⟩ : UInt64) = w₀ := rfl
      rw [hHead, value_cons, wordBase_eq]
      omega
  have hAnd : (x.limbs.head &&& 1).toNat = x.limbs.head.toNat % 2 := by
    have hOne : (1 : UInt64).toNat = 1 := rfl
    rw [UInt64.toNat_and, hOne, Nat.and_one_is_mod]
  rw [Fe301.isOdd, lsb, ← h, hLow, ← hAnd, Bool.eq_iff_iff, beq_iff_eq, decide_eq_true_eq,
    ← UInt64.toNat_inj]
  rfl

theorem or_eq_zero {a b : UInt64} : a ||| b = 0 ↔ a = 0 ∧ b = 0 := by
  constructor
  · intro h
    have hNat := congrArg UInt64.toNat h
    rw [UInt64.toNat_or] at hNat
    have hBoth := Nat.or_eq_zero_iff.mp hNat
    exact ⟨UInt64.toNat_inj.mp hBoth.1, UInt64.toNat_inj.mp hBoth.2⟩
  · rintro ⟨rfl, rfl⟩
    rfl

theorem foldl_or_eq_zero (words : List UInt64) (start : UInt64) :
    words.foldl (· ||| ·) start = 0 ↔ start = 0 ∧ ∀ word ∈ words, word = 0 := by
  induction words generalizing start with
  | nil => simp
  | cons word words ih =>
    rw [List.foldl_cons, ih, or_eq_zero, List.forall_mem_cons, and_assoc]

theorem xor_all_zero {left right : List UInt64} (h : left.length = right.length) :
    (∀ word ∈ List.zipWith (· ^^^ ·) left right, word = 0) ↔ left = right := by
  induction left generalizing right with
  | nil =>
    rw [List.length_nil, eq_comm, List.length_eq_zero_iff] at h
    simp [h]
  | cons l left ih =>
    cases right with
    | nil => simp at h
    | cons r right =>
      simp only [List.length_cons, Nat.add_right_cancel_iff] at h
      rw [List.zipWith_cons_cons, List.forall_mem_cons, ih h, UInt64.xor_eq_zero_iff,
        List.cons.injEq]

theorem ctEq_iff (x y : Fe301) : x.ctEq y = true ↔ x = y := by
  have hLength := x.limbs.2.trans y.limbs.2.symm
  rw [ctEq, beq_iff_eq, foldl_or_eq_zero, xor_all_zero hLength]
  constructor
  · rintro ⟨-, h⟩
    exact congrArg Fe301.mk (Subtype.ext h)
  · rintro rfl
    exact ⟨rfl, rfl⟩

theorem Repr.ctEq (hx : x.Repr v) (hy : y.Repr w) : x.ctEq y = decide (v = w) := by
  rw [Bool.eq_iff_iff, ctEq_iff, decide_eq_true_eq, hx.eq_iff hy]

theorem Repr.isZero (hx : x.Repr v) : x.isZero = decide (v = 0) := hx.ctEq repr_zero

theorem Repr.oracle (h : x.Repr v) : x.oracle = v := by
  rw [Fe301.oracle, h.bytesValue, ZMod.natCast_zmod_val]

variable [ModularInverse]

theorem Repr.invert_isSome (h : x.Repr v) : x.invert.isSome = decide (v ≠ 0) := by
  rw [Fe301.invert, h.oracle]
  exact ModularInverse.isSome_eq v

theorem Repr.invert (h : x.Repr v) (hv : v ≠ 0) : x.invert.value.Repr v⁻¹ := by
  rw [Fe301.invert, h.oracle, ← ModularInverse.value_eq v hv]
  exact fromCanonicalBytes_oracleBytes _

end Fe301

namespace Fe301Lazy

variable {x : Fe301Lazy} {v : Fp}

theorem Repr.isZero (h : x.Repr v) : x.isZero = decide (v = 0) := h.canonical.isZero

theorem Repr.toCanonicalBytes (h : x.Repr v) : x.toCanonicalBytes = Fe301.oracleBytes v :=
  h.canonical.toCanonicalBytes

variable [ModularInverse]

theorem Repr.invert (h : x.Repr v) (hv : v ≠ 0) : x.invert.value.Repr v⁻¹ :=
  repr_fromFe301 (h.canonical.invert hv)

end Fe301Lazy

end X301Provider
