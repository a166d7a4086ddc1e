import X301Provider.X301.KeyAgreement

/-!
# Canonical public encodings

Decoding keeps the low 301 bits and reduces them once, so every 38-byte string
has one canonical form, and the ladder sees nothing else of its input.
-/

namespace X301Provider.X301

open Limbs EdwardsCurve

variable {u w : Bytes 38}

/-- The canonical encoding of the coordinate that a string decodes to. -/
def canonicalForm (u : Bytes 38) : Bytes 38 := Fe301.oracleBytes (decodedU u)

theorem decodePublic_eq (u : Bytes 38) : decodePublic u.1 = .ok (.fromX301Bytes u) := by
  rw [decodePublic, toArray_val]

theorem canonicalizePublicEncoding_eq (u : Bytes 38) :
    canonicalizePublicEncoding u.1 = .ok (canonicalForm u) := by
  rw [canonicalizePublicEncoding, decodePublic_eq]
  exact congrArg Except.ok (Fe301.fromX301Bytes_repr u).toCanonicalBytes

theorem validatePublicEncoding_eq (u : Bytes 38) : validatePublicEncoding u.1 = .ok () := by
  rw [validatePublicEncoding, canonicalizePublicEncoding_eq]
  rfl

theorem decodedU_canonicalForm (u : Bytes 38) : decodedU (canonicalForm u) = decodedU u :=
  decodedU_oracleBytes _

theorem canonicalForm_oracleBytes (v : Fp) :
    canonicalForm (Fe301.oracleBytes v) = Fe301.oracleBytes v :=
  congrArg Fe301.oracleBytes (decodedU_oracleBytes v)

theorem canonicalForm_canonicalForm (u : Bytes 38) :
    canonicalForm (canonicalForm u) = canonicalForm u := canonicalForm_oracleBytes _

theorem bytesValue_canonicalForm_lt (u : Bytes 38) : bytesValue (canonicalForm u).1 < P := by
  rw [canonicalForm, Fe301.oracleBytes_value]
  exact (decodedU u).val_lt

theorem canonicalForm_of_lt (h : bytesValue u.1 < P) : canonicalForm u = u := by
  have hMod : bytesValue u.1 % 2 ^ 301 = bytesValue u.1 :=
    Nat.mod_eq_of_lt (h.trans P_bounds.2.2.2.2.1)
  apply bytes_ext
  rw [canonicalForm, Fe301.oracleBytes_value, decodedU, hMod, ZMod.val_cast_of_lt h]

theorem x301_congr [ModularInverse] (secret : List UInt8) (h : decodedU u = decodedU w) :
    x301 secret u.1 = x301 secret w.1 := by
  have hField : Fe301.fromX301Bytes u = Fe301.fromX301Bytes w := by
    apply (Fe301.fromX301Bytes_repr u).ext
    have hRepr := Fe301.fromX301Bytes_repr w
    rwa [← decodedU, ← h] at hRepr
  simp only [x301, decodePublic_eq, hField]

/-- The public key of a secret; deriving it never fails. -/
def publicOf (secret : Bytes 38) : Bytes 38 :=
  Fe301.oracleBytes (toMontgomery (scalarOf secret • B)).uOrZero

theorem publicFromSecret_eq_publicOf [ModularInverse] (secret : Bytes 38) :
    publicFromSecret secret.1 = .ok (publicOf secret) := publicFromSecret_eq secret

theorem canonicalForm_publicOf (secret : Bytes 38) :
    canonicalForm (publicOf secret) = publicOf secret := canonicalForm_oracleBytes _

theorem bytesValue_publicOf_lt (secret : Bytes 38) : bytesValue (publicOf secret).1 < P := by
  rw [publicOf, Fe301.oracleBytes_value]
  exact ZMod.val_lt _

theorem sharedSecret_publicOf_comm [ModularInverse] (a b : Bytes 38) :
    ∃ shared, sharedSecret a.1 (publicOf b).1 = .ok shared ∧
      sharedSecret b.1 (publicOf a).1 = .ok shared := by
  refine ⟨_, sharedSecret_eq a b, ?_⟩
  rw [mul_comm]
  exact sharedSecret_eq b a

end X301Provider.X301
