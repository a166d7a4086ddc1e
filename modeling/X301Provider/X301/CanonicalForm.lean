import X301Provider.X301.PublicEncoding

/-!
# Canonicalization of public encodings

The masking decoder, the strict decoder and the encoder agree on all 304-bit
strings: one canonical form for each residue of the low 301 bits, and the strict
decoder accepts exactly the strings that are their own canonical form.
-/

namespace X301Provider.X301

open Limbs

variable {u w : Bytes 38}

theorem bytesValue_canonicalForm (u : Bytes 38) :
    bytesValue (canonicalForm u).1 = bytesValue u.1 % 2 ^ 301 % P := by
  rw [canonicalForm, Fe301.oracleBytes_value, decodedU, ZMod.val_natCast]

theorem canonicalForm_eq_iff : canonicalForm u = canonicalForm w ↔ decodedU u = decodedU w :=
  Fe301.oracleBytes_injective.eq_iff

theorem decodedU_eq_iff : decodedU u = decodedU w ↔
    bytesValue u.1 % 2 ^ 301 ≡ bytesValue w.1 % 2 ^ 301 [MOD P] :=
  ZMod.natCast_eq_natCast_iff _ _ P

theorem canonicalForm_eq_self_iff : canonicalForm u = u ↔ bytesValue u.1 < P := by
  constructor
  · intro h
    have hLt := bytesValue_canonicalForm_lt u
    rwa [h] at hLt
  · exact canonicalForm_of_lt

theorem canonicalizePublicEncoding_of_length {s : List UInt8} (h : s.length ≠ 38) :
    canonicalizePublicEncoding s = .error .invalidPublicLength := by
  rw [canonicalizePublicEncoding, decodePublic, toArray_of_length_ne h]
  rfl

theorem canonicalizePublicEncoding_eq_iff :
    canonicalizePublicEncoding u.1 = canonicalizePublicEncoding w.1 ↔
      bytesValue u.1 % 2 ^ 301 ≡ bytesValue w.1 % 2 ^ 301 [MOD P] := by
  rw [canonicalizePublicEncoding_eq, canonicalizePublicEncoding_eq, Except.ok.injEq,
    canonicalForm_eq_iff, decodedU_eq_iff]

/-- Canonicalization as a map on strings: its domain, its value, its kernel and its image. -/
theorem canonicalizePublicEncoding_exact [ModularInverse] :
    (∀ s : List UInt8, (canonicalizePublicEncoding s = .error .invalidPublicLength ↔
      s.length ≠ 38)) ∧
    (∀ s : List UInt8, s.length = 38 → ∃ t : Bytes 38, canonicalizePublicEncoding s = .ok t ∧
      bytesValue t.1 = bytesValue s % 2 ^ 301 % P ∧ canonicalizePublicEncoding t.1 = .ok t) ∧
    (∀ u w : Bytes 38, (canonicalizePublicEncoding u.1 = canonicalizePublicEncoding w.1 ↔
      bytesValue u.1 % 2 ^ 301 ≡ bytesValue w.1 % 2 ^ 301 [MOD P]) ∧
      (canonicalizePublicEncoding u.1 = canonicalizePublicEncoding w.1 →
        ∀ secret, x301 secret u.1 = x301 secret w.1)) ∧
    ∀ u : Bytes 38, (canonicalizePublicEncoding u.1 = .ok u ↔
      (Fe301.fromCanonicalBytes u).isSome = true) ∧
      ((Fe301.fromCanonicalBytes u).isSome = true ↔ bytesValue u.1 < P) := by
  refine ⟨?_, ?_, ?_, ?_⟩
  · intro s
    constructor
    · intro hError hLength
      have hOk := canonicalizePublicEncoding_eq ⟨s, hLength⟩
      rw [hError] at hOk
      cases hOk
    · exact canonicalizePublicEncoding_of_length
  · intro s hLength
    obtain ⟨u, rfl⟩ : ∃ u : Bytes 38, u.1 = s := ⟨⟨s, hLength⟩, rfl⟩
    refine ⟨canonicalForm u, canonicalizePublicEncoding_eq u, bytesValue_canonicalForm u, ?_⟩
    rw [canonicalizePublicEncoding_eq, canonicalForm_canonicalForm]
  · intro u w
    refine ⟨canonicalizePublicEncoding_eq_iff, ?_⟩
    intro hSame secret
    apply x301_congr secret
    exact decodedU_eq_iff.mpr (canonicalizePublicEncoding_eq_iff.mp hSame)
  · intro u
    have hStrict : (Fe301.fromCanonicalBytes u).isSome = true ↔ bytesValue u.1 < P := by
      rw [Fe301.fromCanonicalBytes_isSome, decide_eq_true_eq]
    refine ⟨?_, hStrict⟩
    rw [canonicalizePublicEncoding_eq, Except.ok.injEq, canonicalForm_eq_self_iff, hStrict]

theorem canonicalizePublicEncoding_exact_zeros :
    canonicalizePublicEncoding (List.replicate 37 0) = .error .invalidPublicLength :=
  ((@canonicalizePublicEncoding_exact .zeroAtZero).1 _).mpr (by decide)

end X301Provider.X301
