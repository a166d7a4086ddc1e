import X301Provider.Provider.KeyInvariant
import X301Provider.Provider.Shim

/-!
# Importing a key

The shim decides on selection, presence, type and length, the Rust import on the
agreement of the two components. Both together accept the well-formed requests,
and what they store depends on the request alone.
-/

namespace X301Provider

open Limbs X301

namespace Shim

/-- What the Rust import receives for a component. -/
def componentInput : Option (Bytes 38) → ByteInput
  | none => .null 0
  | some value => .bytes value.1

theorem componentInput_isNull (component : Option (Bytes 38)) :
    (componentInput component).isNull = component.isNone := by
  cases component with
  | none => rfl
  | some value => rfl

section Request

variable [Libcrypto] {params : ParamArray} {name : String} {wanted other required : Bool}
  {component : Option (Bytes 38)} {input : ByteInput}

def located (params : ParamArray) (name : String) : Option OsslParam :=
  params.bind fun params => Libcrypto.locate params name

/-- What a request supplies for a component. A selected component whose parameter appears has
to be an octet string of the full length. -/
inductive Supplies (params : ParamArray) (name : String) : Bool → Option (Bytes 38) → Prop
  | unselected : Supplies params name false none
  | absent : located params name = none → Supplies params name true none
  | present {param : OsslParam} {value : Bytes 38} : located params name = some param →
      param.dataType = .octetString → param.data = .bytes value.1 →
      Supplies params name true (some value)

theorem getStrictOctetString_of_none (required : Bool) (h : located params name = none) :
    getStrictOctetString params name 38 required =
      if required then none else some (.null 0) := by
  rw [located] at h
  rw [getStrictOctetString, h]

theorem getStrictOctetString_eq_some_iff {param : OsslParam} {length : ℕ} (required : Bool)
    (h : located params name = some param) :
    getStrictOctetString params name length required = some input ↔
      param.dataType = .octetString ∧ ∃ region,
        param.data = .bytes region ∧ region.length = length ∧ input = .bytes region := by
  rw [located] at h
  simp only [getStrictOctetString, h]
  constructor
  · intro hRead
    split_ifs at hRead with hMalformed hAccessor
    obtain ⟨⟨hType, hData⟩, hLength⟩ : (param.dataType = .octetString ∧
        param.data.isNull = false) ∧ param.data.length = length := by simpa using hMalformed
    cases hRegion : param.data with
    | null length => rw [hRegion] at hData; cases hData
    | bytes region =>
      have hGet := Libcrypto.getOctetStringPtr_eq param region hType hRegion
      rw [hRegion] at hLength
      rw [hGet] at hRead
      exact ⟨hType, region, rfl, hLength, (Option.some.inj hRead).symm⟩
  · rintro ⟨hType, region, hData, hLength, rfl⟩
    have hGet := Libcrypto.getOctetStringPtr_eq param region hType hData
    simp [hType, hData, hGet, ByteInput.isNull, ByteInput.length, hLength]

/-- The shim accepts a component exactly when the request supplies one, a sole selected
component being present. -/
theorem importComponent_eq_some_iff :
    importComponent params name wanted other = some input ↔
      ∃ component, Supplies params name wanted component ∧
        (wanted = true → other = false → component.isSome = true) ∧
        input = componentInput component := by
  cases wanted with
  | false =>
    constructor
    · rintro ⟨⟩
      exact ⟨none, .unselected, by rintro ⟨⟩, rfl⟩
    · rintro ⟨_, ⟨⟩, -, rfl⟩
      rfl
  | true =>
    rw [importComponent, if_pos rfl]
    cases hLocated : located params name with
    | none =>
      rw [getStrictOctetString_of_none _ hLocated]
      constructor
      · intro h
        cases other with
        | false => cases h
        | true => exact ⟨none, .absent hLocated, by rintro - ⟨⟩, (Option.some.inj h).symm⟩
      · rintro ⟨_, hSupplies, hSole, rfl⟩
        cases hSupplies with
        | absent =>
          cases other with
          | false => cases hSole rfl rfl
          | true => rfl
        | present hFound =>
          rw [hLocated] at hFound
          cases hFound
    | some param =>
      rw [getStrictOctetString_eq_some_iff _ hLocated]
      constructor
      · rintro ⟨hType, region, hData, hLength, rfl⟩
        exact ⟨some ⟨region, hLength⟩, .present hLocated hType hData, fun _ _ => rfl, rfl⟩
      · rintro ⟨_, hSupplies, -, rfl⟩
        cases hSupplies with
        | absent hFound =>
          rw [hLocated] at hFound
          cases hFound
        | @present _ value hFound hType hData =>
          obtain rfl := Option.some.inj (hLocated.symm.trans hFound)
          exact ⟨hType, value.1, hData, value.2, rfl⟩

theorem importComponent_congr {others : ParamArray}
    (h : wanted = true → located params name = located others name) :
    importComponent params name wanted other = importComponent others name wanted other := by
  cases wanted with
  | false => rfl
  | true =>
    have hSame := h rfl
    simp only [located] at hSame
    simp only [importComponent, getStrictOctetString, hSame]

end Request

theorem readOptionalSecret_componentInput (secret : Option (Bytes 38)) :
    Rust.readOptionalSecret (componentInput secret) = some secret := by
  cases secret with
  | none => rfl
  | some secret => exact Rust.readOptionalSecret_bytes secret

theorem readOptionalPublic_componentInput (encoded : Option (Bytes 38)) :
    Rust.readOptionalPublic (componentInput encoded) = some (encoded.map canonicalForm) := by
  cases encoded with
  | none => rfl
  | some encoded => exact Rust.readOptionalPublic_bytes encoded

/-- A request whose components are well formed and agree. -/
structure WellFormedImport [ModularInverse] [Libcrypto] (selection : Selection)
    (params : ParamArray) (secret encoded : Option (Bytes 38)) : Prop where
  params_ne_null : params.isSome = true
  supported : selectionSupported selection = true
  selects : wantsPrivate selection = true ∨ wantsPublic selection = true
  suppliesPrivate : Supplies params privKeyName (wantsPrivate selection) secret
  suppliesPublic : Supplies params pubKeyName (wantsPublic selection) encoded
  solePrivate : wantsPrivate selection = true → wantsPublic selection = false →
    secret.isSome = true
  solePublic : wantsPublic selection = true → wantsPrivate selection = false →
    encoded.isSome = true
  either : wantsPrivate selection = true → wantsPublic selection = true →
    secret.isSome = true ∨ encoded.isSome = true
  agree : ∀ raw given, secret = some raw → encoded = some given → ∃ canonical,
    canonicalizePublicEncoding given.1 = .ok canonical ∧ publicFromSecret raw.1 = .ok canonical

theorem sole_isNone_eq_false {wanted other : Bool} {component : Option (Bytes 38)}
    (hSole : wanted = true → other = false → component.isSome = true) :
    (wanted && !other && component.isNone) = false := by
  cases component with
  | some value => simp
  | none =>
    cases wanted with
    | false => rfl
    | true =>
      cases other with
      | true => rfl
      | false => cases hSole rfl rfl

section Components

variable [Libcrypto] {params : ParamArray} {name : String} {wanted : Bool}
  {component : Option (Bytes 38)}

theorem Supplies.input_eq (h : Supplies params name wanted component) :
    (if wanted then componentInput component else .null 0) = componentInput component := by
  cases h with
  | unselected => rfl
  | absent => rfl
  | present => rfl

end Components

variable [ModularInverse] {selection : Selection} {params : ParamArray}
  {secret encoded : Option (Bytes 38)}

/-- The Rust import of two components that the shim accepted. -/
theorem keyImport_componentInput (inner : X301Key)
    (hPresent : (secret.isNone && encoded.isNone) = false) :
    Rust.keyImport (some inner) (componentInput secret) (componentInput encoded) =
      if Rust.conflict (secret.map publicOf) (encoded.map canonicalForm) then (0, some inner)
      else (1, some ⟨secret, secret.map publicOf <|> encoded.map canonicalForm⟩) := by
  have hAbsent : (secret.isNone && (encoded.map canonicalForm).isNone) = false := by
    rw [Option.isNone_map]
    exact hPresent
  cases hConflict : Rust.conflict (secret.map publicOf) (encoded.map canonicalForm) with
  | true =>
    simp [Rust.keyImport, readOptionalSecret_componentInput, readOptionalPublic_componentInput,
      hConflict]
  | false =>
    exact Rust.keyImport_of_inputs inner (readOptionalSecret_componentInput secret)
      (readOptionalPublic_componentInput encoded) hAbsent hConflict

theorem conflict_eq_false_iff_agree :
    Rust.conflict (secret.map publicOf) (encoded.map canonicalForm) = false ↔
      ∀ raw given, secret = some raw → encoded = some given → ∃ canonical,
        canonicalizePublicEncoding given.1 = .ok canonical ∧
          publicFromSecret raw.1 = .ok canonical := by
  simp only [Rust.conflict_eq_false_iff, canonicalizePublicEncoding_eq,
    publicFromSecret_eq_publicOf]
  constructor
  · rintro h raw given rfl rfl
    exact ⟨_, rfl, congrArg Except.ok (h _ _ rfl rfl)⟩
  · rintro h _ _ hDerived hCanonical
    obtain ⟨raw, rfl, rfl⟩ := Option.map_eq_some_iff.mp hDerived
    obtain ⟨given, rfl, rfl⟩ := Option.map_eq_some_iff.mp hCanonical
    obtain ⟨canonical, hGiven, hRaw⟩ := h raw given rfl rfl
    rw [Except.ok.inj hGiven, Except.ok.inj hRaw]

variable [Libcrypto]

theorem x301KeyImport_of_supplies (provider : ProviderContext) (inner : X301Key)
    (hParams : params.isSome = true) (hSupported : selectionSupported selection = true)
    (hSelected : wantsPrivate selection = true ∨ wantsPublic selection = true)
    (hPrivate : Supplies params privKeyName (wantsPrivate selection) secret)
    (hPublic : Supplies params pubKeyName (wantsPublic selection) encoded)
    (hSolePrivate : wantsPrivate selection = true → wantsPublic selection = false →
      secret.isSome = true)
    (hSolePublic : wantsPublic selection = true → wantsPrivate selection = false →
      encoded.isSome = true) :
    (x301KeyImport (some ⟨some provider, some inner⟩) selection params).value =
      if secret.isNone && encoded.isNone ||
          Rust.conflict (secret.map publicOf) (encoded.map canonicalForm) then
        (0, some ⟨some provider, some inner⟩)
      else (1, some ⟨some provider, some
        ⟨secret, secret.map publicOf <|> encoded.map canonicalForm⟩⟩) := by
  have hPrivateInput : importComponent params privKeyName (wantsPrivate selection)
      (wantsPublic selection) = some (componentInput secret) :=
    importComponent_eq_some_iff.mpr ⟨secret, hPrivate, hSolePrivate, rfl⟩
  have hPublicInput : importComponent params pubKeyName (wantsPublic selection)
      (wantsPrivate selection) = some (componentInput encoded) :=
    importComponent_eq_some_iff.mpr ⟨encoded, hPublic, hSolePublic, rfl⟩
  have hSelection : (!wantsPrivate selection && !wantsPublic selection) = false := by
    rcases hSelected with h | h <;> simp [h]
  have hMissingPrivate := sole_isNone_eq_false hSolePrivate
  have hMissingPublic := sole_isNone_eq_false hSolePublic
  have hNull : params.isNone = false := by rw [Option.isNone_eq_false_iff]; exact hParams
  simp only [x301KeyImport, hNull, hSupported, hSelection, hPrivateInput, hPublicInput,
    componentInput_isNull, hMissingPrivate, hMissingPublic, hPrivate.input_eq, hPublic.input_eq]
  cases hAbsent : (secret.isNone && encoded.isNone) with
  | true => rfl
  | false =>
    rw [keyImport_componentInput inner hAbsent]
    cases Rust.conflict (secret.map publicOf) (encoded.map canonicalForm) with
    | true => rfl
    | false => rfl

theorem WellFormedImport.isSome (h : WellFormedImport selection params secret encoded) :
    secret.isSome = true ∨ encoded.isSome = true := by
  cases hPrivate : wantsPrivate selection with
  | false =>
    cases hPublic : wantsPublic selection with
    | false => exact absurd h.selects (by rw [hPrivate, hPublic]; decide)
    | true => exact Or.inr (h.solePublic hPublic hPrivate)
  | true =>
    cases hPublic : wantsPublic selection with
    | false => exact Or.inl (h.solePrivate hPrivate hPublic)
    | true => exact h.either hPrivate hPublic

theorem x301KeyImport_of_wellFormed (h : WellFormedImport selection params secret encoded)
    (provider : ProviderContext) (inner : X301Key) :
    (x301KeyImport (some ⟨some provider, some inner⟩) selection params).value =
      (1, some ⟨some provider, some
        ⟨secret, secret.map publicOf <|> encoded.map canonicalForm⟩⟩) := by
  have hPresent : (secret.isNone && encoded.isNone) = false := by
    have hSome := h.isSome
    cases secret with
    | none =>
      cases encoded with
      | none =>
        simp at hSome
      | some encoded =>
        rfl
    | some secret =>
      rfl
  rw [x301KeyImport_of_supplies provider inner h.params_ne_null h.supported h.selects
    h.suppliesPrivate h.suppliesPublic h.solePrivate h.solePublic, hPresent,
    conflict_eq_false_iff_agree.mpr h.agree]
  rfl

theorem x301KeyImport_of_not_wellFormed
    (h : ∀ secret encoded, ¬WellFormedImport selection params secret encoded)
    (provider : ProviderContext) (inner : X301Key) :
    (x301KeyImport (some ⟨some provider, some inner⟩) selection params).value =
      (0, some ⟨some provider, some inner⟩) := by
  cases hGuard : params.isNone || !selectionSupported selection ||
      (!wantsPrivate selection && !wantsPublic selection) with
  | true => simp only [x301KeyImport, hGuard, if_true]
  | false =>
    cases hPrivate : importComponent params privKeyName (wantsPrivate selection)
        (wantsPublic selection) with
    | none => simp only [x301KeyImport, hGuard, hPrivate, Bool.false_eq_true, if_false]
    | some privateInput =>
      cases hPublic : importComponent params pubKeyName (wantsPublic selection)
          (wantsPrivate selection) with
      | none => simp only [x301KeyImport, hGuard, hPrivate, hPublic, Bool.false_eq_true, if_false]
      | some publicInput =>
        obtain ⟨secret, hSecret, hSolePrivate, rfl⟩ := importComponent_eq_some_iff.mp hPrivate
        obtain ⟨encoded, hEncoded, hSolePublic, rfl⟩ := importComponent_eq_some_iff.mp hPublic
        obtain ⟨⟨hParams, hSupported⟩, hOther⟩ : (params.isSome = true ∧
            selectionSupported selection = true) ∧
            (wantsPrivate selection = false → wantsPublic selection = true) := by
          simpa [Option.isSome_iff_ne_none] using hGuard
        have hSelected : wantsPrivate selection = true ∨ wantsPublic selection = true :=
          (Bool.eq_false_or_eq_true _).imp_right hOther
        rw [x301KeyImport_of_supplies provider inner hParams hSupported hSelected hSecret hEncoded
          hSolePrivate hSolePublic]
        -- What is left to fail is the presence of a component and the agreement of two.
        cases hAbsent : (secret.isNone && encoded.isNone) with
        | true => rfl
        | false =>
          cases hConflict : Rust.conflict (secret.map publicOf) (encoded.map canonicalForm) with
          | true => rfl
          | false =>
            have hPresent : secret.isSome = true ∨ encoded.isSome = true := by
              cases secret with
              | some secret => exact Or.inl rfl
              | none =>
                cases encoded with
                | some encoded => exact Or.inr rfl
                | none => cases hAbsent
            exact absurd ⟨hParams, hSupported, hSelected, hSecret, hEncoded, hSolePrivate,
              hSolePublic, fun _ _ => hPresent, conflict_eq_false_iff_agree.mp hConflict⟩
              (h secret encoded)

theorem x301KeyImport_congr {others : ParamArray} (hNull : params.isSome = others.isSome)
    (hPrivate : wantsPrivate selection = true →
      located params privKeyName = located others privKeyName)
    (hPublic : wantsPublic selection = true →
      located params pubKeyName = located others pubKeyName) (key : Option KeyObject) :
    x301KeyImport key selection params = x301KeyImport key selection others := by
  have hIsNone : params.isNone = others.isNone := by
    rw [← Option.not_isSome, ← Option.not_isSome, hNull]
  simp only [x301KeyImport, hIsNone, importComponent_congr hPrivate, importComponent_congr hPublic]

/-- Import accepts exactly the well-formed requests. It replaces the key by what the request
supplies, or leaves it alone, and it looks at no unselected component. -/
theorem keyImport_exact (provider : ProviderContext) (inner : X301Key) (selection : Selection)
    (params : ParamArray) :
    let key : KeyObject := ⟨some provider, some inner⟩
    let result := (x301KeyImport (some key) selection params).value
    (result.1 = 1 ↔ ∃ secret encoded, WellFormedImport selection params secret encoded) ∧
    (∀ secret encoded, WellFormedImport selection params secret encoded → ∃ new,
      result = (1, some ⟨some provider, some new⟩) ∧ new.privateKey = secret ∧
      (∀ raw, secret = some raw → ∃ value, publicFromSecret raw.1 = .ok value ∧
        new.publicKey = some value) ∧
      (secret = none → ∃ given value, encoded = some given ∧
        canonicalizePublicEncoding given.1 = .ok value ∧ new.publicKey = some value)) ∧
    (result.1 ≠ 1 → result = (0, some key)) ∧
    (∀ others : ParamArray, params.isSome = others.isSome →
      (wantsPrivate selection = true →
        located params privKeyName = located others privKeyName) →
      (wantsPublic selection = true →
        located params pubKeyName = located others pubKeyName) →
      x301KeyImport (some key) selection params = x301KeyImport (some key) selection others) := by
  intro key result
  have hRejected (h : ¬∃ secret encoded, WellFormedImport selection params secret encoded) :
      result = (0, some key) := by
    push Not at h
    exact x301KeyImport_of_not_wellFormed h provider inner
  refine ⟨⟨?_, ?_⟩, ?_, ?_, ?_⟩
  · intro hOne
    by_contra hNot
    rw [hRejected hNot] at hOne
    cases hOne
  · rintro ⟨secret, encoded, h⟩
    exact congrArg Prod.fst (x301KeyImport_of_wellFormed h provider inner)
  · intro secret encoded h
    refine ⟨_, x301KeyImport_of_wellFormed h provider inner, rfl, ?_, ?_⟩
    · rintro raw rfl
      exact ⟨publicOf raw, publicFromSecret_eq_publicOf raw, rfl⟩
    · rintro rfl
      obtain ⟨given, rfl⟩ := Option.isSome_iff_exists.mp (h.isSome.resolve_left Bool.false_ne_true)
      exact ⟨given, canonicalForm given, rfl, canonicalizePublicEncoding_eq given, rfl⟩
  · intro hOne
    apply hRejected
    rintro ⟨secret, encoded, h⟩
    exact hOne (congrArg Prod.fst (x301KeyImport_of_wellFormed h provider inner))
  · intro others hNull hPrivate hPublic
    exact x301KeyImport_congr hNull hPrivate hPublic (some key)

omit [ModularInverse] [Libcrypto] in
theorem keyImport_exact_private :
    let param : OsslParam := ⟨privKeyName, .octetString, .bytes (.replicate 38 0 : Bytes 38).1, none⟩
    ∃ new, (@x301KeyImport .zeroAtZero .firstMatch
        (some ⟨some ⟨0, true, true, true, true⟩, some ⟨none, none⟩⟩) 0x03 (some [param])).value =
          (1, some ⟨some ⟨0, true, true, true, true⟩, some new⟩) ∧
      new.privateKey = some (.replicate 38 0) := by
  intro param
  have hRequest : @WellFormedImport .zeroAtZero .firstMatch 0x03 (some [param])
      (some (.replicate 38 0)) none := by
    refine @WellFormedImport.mk .zeroAtZero .firstMatch _ _ _ _ rfl (by decide)
      (Or.inl (by decide)) ?_ ?_ (fun _ _ => rfl) (fun _ h => absurd h (by decide))
      (fun _ _ => Or.inl rfl) ?_
    · exact @Supplies.present .firstMatch _ _ param _ rfl rfl rfl
    · exact @Supplies.absent .firstMatch _ _ rfl
    · rintro _ _ - ⟨⟩
  obtain ⟨-, hImport, -⟩ := @keyImport_exact .zeroAtZero .firstMatch ⟨0, true, true, true, true⟩
    ⟨none, none⟩ 0x03 (some [param])
  obtain ⟨new, hNew, hPrivate, -⟩ := hImport _ _ hRequest
  exact ⟨new, hNew, hPrivate⟩

end Shim

end X301Provider
