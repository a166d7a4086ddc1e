import X301Provider.Provider.KeyObjects
import X301Provider.X301.PublicEncoding

/-!
# What a key object holds

A stored public value is canonical, and it is the public key of the stored
private value when both are present. One lemma per function says what it returns.
-/

namespace X301Provider

open Limbs X301

variable {key : X301Key} {secret encoded : Bytes 38} {privateInput publicInput : ByteInput}

structure X301Key.Valid [ModularInverse] (key : X301Key) : Prop where
  canonical : ∀ encoded, key.publicKey = some encoded → bytesValue encoded.1 < P
  matching : ∀ secret encoded, key.privateKey = some secret → key.publicKey = some encoded →
    publicFromSecret secret.1 = .ok encoded

theorem X301Key.Valid.publicOf_eq [ModularInverse] (h : key.Valid)
    (hPrivate : key.privateKey = some secret) (hPublic : key.publicKey = some encoded) :
    encoded = publicOf secret := by
  have hMatch := h.matching secret encoded hPrivate hPublic
  rw [publicFromSecret_eq_publicOf] at hMatch
  exact (Except.ok.inj hMatch).symm

theorem X301Key.Valid.canonicalForm_eq [ModularInverse] (h : key.Valid)
    (hPublic : key.publicKey = some encoded) : canonicalForm encoded = encoded :=
  canonicalForm_of_lt (h.canonical encoded hPublic)

namespace Rust

@[simp] theorem readOptionalPublic_bytes (encoded : Bytes 38) :
    readOptionalPublic (.bytes encoded.1) = some (some (canonicalForm encoded)) := by
  simp only [readOptionalPublic, toArray_val, canonicalizePublicEncoding_eq]

@[simp] theorem readOptionalSecret_bytes (secret : Bytes 38) :
    readOptionalSecret (.bytes secret.1) = some (some secret) := by
  simp only [readOptionalSecret, toArray_val, Option.map_some]

theorem readOptionalPublic_lt (h : readOptionalPublic publicInput = some (some encoded)) :
    bytesValue encoded.1 < P := by
  cases publicInput with
  | null length =>
    rw [readOptionalPublic] at h
    split_ifs at h
    cases Option.some.inj h
  | bytes region =>
    rw [readOptionalPublic] at h
    cases hArray : toArray 38 region with
    | none => simp [hArray] at h
    | some raw =>
      simp only [hArray, canonicalizePublicEncoding_eq, Option.some.injEq] at h
      rw [← h]
      exact bytesValue_canonicalForm_lt raw

@[simp] theorem bytesEqual_iff {left right : Bytes 38} :
    bytesEqual left right = true ↔ left = right := decide_eq_true_iff

theorem conflict_eq_false_iff {left right : Option (Bytes 38)} :
    conflict left right = false ↔
      ∀ a b, left = some a → right = some b → a = b := by
  cases left with
  | none =>
    simp [conflict]
  | some left =>
    cases right with
    | none =>
      simp [conflict]
    | some right =>
      simp [conflict]

theorem writeExact_full (buffer value : Bytes 38) :
    writeExact (some buffer) value = (true, some value) := by
  rw [writeExact, dif_neg (lt_irrefl 38)]
  refine congrArg (fun written => (true, some written)) (Subtype.ext ?_)
  exact (congrArg (value.1 ++ ·) (List.drop_eq_nil_of_le buffer.2.le)).trans (List.append_nil _)

theorem writeComponent_full (component : Option (Bytes 38)) (buffer : Bytes 38) :
    writeComponent component (some buffer) =
      match component with
      | none => (0, some buffer)
      | some value => (1, some value) := by
  cases component with
  | none => rfl
  | some value =>
    rw [writeComponent, writeExact_full]
    rfl

theorem exchangeInit_cases (exchange : X301Exchange) (key : X301Key) :
    (key.privateKey = none ∧ exchangeInit (some exchange) (some key) = (0, some exchange)) ∨
      ∃ secret, key.privateKey = some secret ∧
        exchangeInit (some exchange) (some key) = (1, some ⟨some secret, none⟩) := by
  cases hPrivate : key.privateKey with
  | none => exact Or.inl ⟨rfl, by simp [exchangeInit, hPrivate]⟩
  | some secret => exact Or.inr ⟨secret, rfl, by simp [exchangeInit, hPrivate]⟩

theorem exchangeSetPeer_cases (exchange : X301Exchange) (key : X301Key) :
    exchangeSetPeer (some exchange) (some key) = (0, some exchange) ∨
      ∃ encoded, key.publicKey = some encoded ∧
        exchangeSetPeer (some exchange) (some key) =
          (1, some { exchange with peerPublic := some encoded }) := by
  obtain ⟨_ | secret, peerPublic⟩ := exchange
  · exact Or.inl rfl
  · cases hPublic : key.publicKey with
    | none => exact Or.inl (by simp [exchangeSetPeer, hPublic])
    | some encoded =>
      exact Or.inr ⟨encoded, rfl, by simp [exchangeSetPeer, hPublic, validatePublicEncoding_eq]⟩

variable [ModularInverse]

@[simp] theorem derivedPublic_eq (secret : Option (Bytes 38)) :
    derivedPublic secret = some (secret.map publicOf) := by
  cases secret with
  | none => rfl
  | some secret => simp only [derivedPublic, publicFromSecret_eq_publicOf, Option.map_some]

theorem keyImport_cases (key : X301Key) (privateInput publicInput : ByteInput) :
    keyImport (some key) privateInput publicInput = (0, some key) ∨
      ∃ secret encoded, readOptionalSecret privateInput = some secret ∧
        readOptionalPublic publicInput = some encoded ∧
        conflict (secret.map publicOf) encoded = false ∧
        keyImport (some key) privateInput publicInput =
          (1, some ⟨secret, secret.map publicOf <|> encoded⟩) := by
  simp only [keyImport, derivedPublic_eq]
  cases readOptionalSecret privateInput with
  | none =>
    exact Or.inl rfl
  | some secret =>
    cases readOptionalPublic publicInput with
    | none =>
      exact Or.inl rfl
    | some encoded =>
      by_cases hAbsent : (secret.isNone && encoded.isNone) = true
      · exact Or.inl (by simp [hAbsent])
      · cases hConflict : conflict (secret.map publicOf) encoded with
        | true => exact Or.inl (by simp [hAbsent, hConflict])
        | false =>
          exact Or.inr ⟨secret, encoded, rfl, rfl, hConflict, by simp [hAbsent, hConflict]⟩

theorem keyImport_of_inputs (key : X301Key) {secret encoded : Option (Bytes 38)}
    (hPrivate : readOptionalSecret privateInput = some secret)
    (hPublic : readOptionalPublic publicInput = some encoded)
    (hPresent : (secret.isNone && encoded.isNone) = false)
    (hConflict : conflict (secret.map publicOf) encoded = false) :
    keyImport (some key) privateInput publicInput =
      (1, some ⟨secret, secret.map publicOf <|> encoded⟩) := by
  simp [keyImport, derivedPublic_eq, hPrivate, hPublic, hPresent, hConflict]

theorem keySetEncodedPublic_cases (key : X301Key) (publicInput : ByteInput) :
    keySetEncodedPublic (some key) publicInput = (0, some key) ∨
      ∃ encoded, readOptionalPublic publicInput = some (some encoded) ∧
        conflict (key.privateKey.map publicOf) (some encoded) = false ∧
        conflict key.publicKey (some encoded) = false ∧
        keySetEncodedPublic (some key) publicInput =
          (1, some { key with publicKey := some encoded }) := by
  simp only [keySetEncodedPublic, derivedPublic_eq]
  rcases readOptionalPublic publicInput with _ | _ | encoded
  · exact Or.inl rfl
  · exact Or.inl rfl
  · cases hDerived : conflict (key.privateKey.map publicOf) (some encoded) with
    | true => exact Or.inl (by simp [hDerived])
    | false =>
      cases hExisting : conflict key.publicKey (some encoded) with
      | true => exact Or.inl (by simp [hDerived, hExisting])
      | false => exact Or.inr ⟨encoded, rfl, hDerived, hExisting, by simp [hDerived, hExisting]⟩

theorem keyGenerate_cases (fillRandom : Option FillRandom) (allocates : Bool) :
    keyGenerate fillRandom allocates = none ∨
      ∃ secret, keyGenerate fillRandom allocates = some ⟨some secret, some (publicOf secret)⟩ := by
  cases fillRandom with
  | none =>
    exact Or.inl rfl
  | some fillRandom =>
    simp only [keyGenerate, publicFromSecret_eq_publicOf, tryBox]
    split_ifs
    · exact Or.inl rfl
    · exact Or.inr ⟨_, rfl⟩
    · exact Or.inl rfl

theorem keyGenerate_of_fill {fillRandom : FillRandom} {secret : Bytes 38}
    (h : fillRandom (.replicate 38 0) = (1, secret)) :
    keyGenerate (some fillRandom) true = some ⟨some secret, some (publicOf secret)⟩ := by
  simp only [keyGenerate, h, publicFromSecret_eq_publicOf, tryBox]
  rfl

theorem exchangeDerive_of_ok {secret peerPublic shared : Bytes 38}
    (h : sharedSecret secret.1 peerPublic.1 = .ok shared) (buffer : Bytes 38) :
    exchangeDerive (some ⟨some secret, some peerPublic⟩) (some buffer) = (1, some shared) := by
  simp only [exchangeDerive, h, writeComponent_full]

theorem exchangeDerive_of_not_ok {exchange : X301Exchange}
    (h : ∀ secret peerPublic shared, exchange = ⟨some secret, some peerPublic⟩ →
      sharedSecret secret.1 peerPublic.1 ≠ .ok shared) (buffer : Bytes 38) :
    exchangeDerive (some exchange) (some buffer) = (0, some buffer) := by
  obtain ⟨_ | secret, _ | peerPublic⟩ := exchange
  · rfl
  · rfl
  · rfl
  · cases hShared : sharedSecret secret.1 peerPublic.1 with
    | error error => simp only [exchangeDerive, hShared]
    | ok shared => exact absurd hShared (h secret peerPublic shared rfl)

/-! ### The operations keep the invariant -/

theorem valid_private (secret : Option (Bytes 38)) : X301Key.Valid ⟨secret, none⟩ := by
  constructor
  · rintro _ ⟨⟩
  · rintro _ _ - ⟨⟩

theorem valid_public (h : bytesValue encoded.1 < P) : X301Key.Valid ⟨none, some encoded⟩ := by
  constructor
  · rintro _ ⟨⟩
    exact h
  · rintro _ _ ⟨⟩

theorem valid_pair (secret : Bytes 38) : X301Key.Valid ⟨some secret, some (publicOf secret)⟩ := by
  constructor
  · rintro _ ⟨⟩
    exact bytesValue_publicOf_lt secret
  · rintro _ _ ⟨⟩ ⟨⟩
    exact publicFromSecret_eq_publicOf secret

theorem keyImport_valid {new : X301Key} (hKey : key.Valid)
    (h : (keyImport (some key) privateInput publicInput).2 = some new) : new.Valid := by
  rcases keyImport_cases key privateInput publicInput with
    hSame | ⟨secret, encoded, -, hPublic, -, hNew⟩
  · rw [hSame] at h
    exact Option.some.inj h ▸ hKey
  · rw [hNew] at h
    rw [← Option.some.inj h]
    cases secret with
    | none =>
      cases encoded with
      | none =>
        exact valid_private none
      | some encoded =>
        exact valid_public (readOptionalPublic_lt hPublic)
    | some secret =>
      exact valid_pair secret

theorem keySetEncodedPublic_valid {new : X301Key} (hKey : key.Valid)
    (h : (keySetEncodedPublic (some key) publicInput).2 = some new) : new.Valid := by
  rcases keySetEncodedPublic_cases key publicInput with
    hSame | ⟨encoded, hPublic, hDerived, -, hNew⟩
  · rw [hSame] at h
    exact Option.some.inj h ▸ hKey
  · rw [hNew] at h
    rw [← Option.some.inj h]
    obtain ⟨_ | secret, _⟩ := key
    · exact valid_public (readOptionalPublic_lt hPublic)
    · obtain rfl := conflict_eq_false_iff.mp hDerived _ encoded rfl rfl
      exact valid_pair secret

theorem keyGenerate_valid {fillRandom : Option FillRandom} {allocates : Bool} {new : X301Key}
    (h : keyGenerate fillRandom allocates = some new) : new.Valid := by
  rcases keyGenerate_cases fillRandom allocates with hNone | ⟨secret, hSome⟩
  · rw [hNone] at h
    cases h
  · rw [hSome] at h
    exact Option.some.inj h ▸ valid_pair secret

theorem keyDuplicate_valid {includePrivate includePublic : ℤ} {allocates : Bool} {new : X301Key}
    (hKey : key.Valid)
    (h : keyDuplicate (some key) includePrivate includePublic allocates = some new) :
    new.Valid := by
  rw [keyDuplicate, tryBox] at h
  split_ifs at h
  · exact Option.some.inj h ▸ hKey
  · exact Option.some.inj h ▸ valid_private _
  · rw [← Option.some.inj h]
    exact ⟨hKey.canonical, by rintro _ _ ⟨⟩⟩
  · exact Option.some.inj h ▸ valid_private none

/-- On a valid key, validation is presence. -/
theorem keyValidate_eq_one_iff (hKey : key.Valid) (validatePrivate validatePublic : ℤ) :
    keyValidate (some key) validatePrivate validatePublic = 1 ↔
      (validatePrivate ≠ 0 → key.privateKey.isSome = true) ∧
        (validatePublic ≠ 0 → key.publicKey.isSome = true) := by
  obtain ⟨secret, encoded⟩ := key
  have hConflict : conflict ((if validatePrivate ≠ 0 then secret else none).map publicOf)
      encoded = false := by
    rw [conflict_eq_false_iff]
    rintro a b hDerived rfl
    split_ifs at hDerived
    · obtain ⟨raw, rfl, rfl⟩ := Option.map_eq_some_iff.mp hDerived
      exact (hKey.publicOf_eq rfl rfl).symm
    · cases hDerived
  simp only [keyValidate, derivedPublic_eq]
  cases secret with
  | none =>
    cases encoded with
    | none =>
      by_cases hPrivate : validatePrivate = 0 <;> by_cases hPublic : validatePublic = 0 <;>
        simp [hPrivate, hPublic]
    | some encoded =>
      by_cases hPrivate : validatePrivate = 0 <;> by_cases hPublic : validatePublic = 0 <;>
        simp [hPrivate, hPublic, validatePublicEncoding_eq, conflict]
  | some secret =>
    cases encoded with
    | none =>
      by_cases hPublic : validatePublic = 0 <;> simp [hPublic]
    | some encoded =>
      simp only [validatePublicEncoding_eq, hConflict]
      simp

end Rust

end X301Provider
