import X301Provider.Hybrid.Components
import X301Provider.Provider.KeyTransfer

/-!
# Encoded hybrid public keys

The writer and the parser of the 1606 bytes use different component functions.
What is stored and written back is the ML-KEM part as it came, followed by the
canonical form of the X301 part.
-/

namespace X301Provider

open Limbs X301 ByteRegion

/-- What `x301_shim_init` leaves in every provider that it hands out. -/
structure ProviderContext.Initialized (provider : ProviderContext) : Prop where
  hasRust : provider.hasRust = true
  hasLibctx : provider.hasLibctx = true

/-- Public keys are imported and exported faithfully, and nothing fails for lack of memory: the
encodings that `accepts` admits are imported, the others are not, and the encoding of an imported
key is what it was imported from. -/
structure MlKemApi.Faithful {σ Pkey Context : Type} (mlkem : MlKemApi σ Pkey Context)
    (accepts : Bytes 1568 → Prop) : Prop where
  contextNewFromName : ∀ provider s, (mlkem.contextNewFromName provider s).1.isSome = true
  fromdataInit : ∀ context s, 0 < (mlkem.fromdataInit context s).1
  fromdata_accepted : ∀ context publicKey s, accepts publicKey →
    0 < (mlkem.fromdata context publicKey s).1.1 ∧
      (mlkem.fromdata context publicKey s).1.2.isSome = true
  fromdata_refused : ∀ context publicKey s, ¬accepts publicKey →
    (mlkem.fromdata context publicKey s).1.1 ≤ 0
  getPublic_fromdata : ∀ context publicKey s pkey, 0 < (mlkem.fromdata context publicKey s).1.1 →
    (mlkem.fromdata context publicKey s).1.2 = some pkey → ∀ output t,
    0 < (mlkem.getPublic pkey output t).1.status ∧ (mlkem.getPublic pkey output t).1.length = 1568 ∧
      (mlkem.getPublic pkey output t).1.output = publicKey

variable {σ Pkey Context : Type} {mlkem : MlKemApi σ Pkey Context} {accepts : Bytes 1568 → Prop}
  {provider : ProviderContext} {publicKey : Bytes 1568} {pkey : Pkey}

/-- The public key that is read from a key is always the same. -/
def MlKemApi.Encodes (mlkem : MlKemApi σ Pkey Context) (pkey : Pkey) (publicKey : Bytes 1568) :
    Prop :=
  ∀ output s, (mlkemGetPublic mlkem (some pkey) output s).1 = (true, publicKey)

namespace MlKemApi.Faithful

variable (hMlkem : mlkem.Faithful accepts)

include hMlkem

theorem import_accepted (hProvider : provider.Initialized) (h : accepts publicKey) (s : σ) :
    ∃ pkey t, mlkemImportPublic mlkem provider publicKey s = (some pkey, t) ∧
      mlkem.Encodes pkey publicKey := by
  have hNew := hMlkem.contextNewFromName provider s
  rcases hContext : mlkem.contextNewFromName provider s with ⟨_ | context, s₁⟩
  · rw [hContext] at hNew
    cases hNew
  · have hInit := hMlkem.fromdataInit context s₁
    rcases hStart : mlkem.fromdataInit context s₁ with ⟨status, s₂⟩
    rw [hStart] at hInit
    obtain ⟨hStatus, hKey⟩ := hMlkem.fromdata_accepted context publicKey s₂ h
    obtain ⟨pkey, hPkey⟩ := Option.isSome_iff_exists.mp hKey
    have hRead := hMlkem.getPublic_fromdata context publicKey s₂ pkey hStatus hPkey
    rcases hImport : mlkem.fromdata context publicKey s₂ with ⟨⟨imported, key⟩, s₃⟩
    rw [hImport] at hStatus hPkey
    obtain rfl := hPkey
    refine ⟨pkey, mlkem.contextFree context s₃, ?_, ?_⟩
    · simp only [mlkemImportPublic, hProvider.hasLibctx, hContext, hStart, hImport,
        not_le.mpr hInit, not_le.mpr hStatus, Bool.not_true, Bool.false_eq_true, if_false]
    · intro output t
      obtain ⟨hPositive, hLength, hOutput⟩ := hRead output t
      simp only [mlkemGetPublic, hPositive, hLength, hOutput, decide_true, beq_self_eq_true,
        Bool.and_self]

theorem import_refused (h : ¬accepts publicKey) (s : σ) :
    (mlkemImportPublic mlkem provider publicKey s).1 = none := by
  rw [mlkemImportPublic]
  split_ifs
  · rfl
  · split
    · rfl
    · rename_i context s₁ hContext
      dsimp only
      split_ifs with hInit hStatus
      · rfl
      · rfl
      · exact absurd (hMlkem.fromdata_refused context publicKey _ h) hStatus

end MlKemApi.Faithful

def Runtime.steady : Runtime Unit where
  panics _ s := (false, s)
  allocates _ s := (true, s)
  fillRandom _ s := ((1, .replicate 38 1), s)

theorem Runtime.steady_neverFails : Runtime.steady.NeverFails := ⟨fun _ _ => rfl, fun _ _ => rfl⟩

/-- The check of an import on the first coefficient of the encoding. -/
def firstCoefficientReduced (publicKey : Bytes 1568) : Prop :=
  (publicKey.1.getD 0 0).toNat + 256 * ((publicKey.1.getD 1 0).toNat % 16) < 3329

instance (publicKey : Bytes 1568) : Decidable (firstCoefficientReduced publicKey) :=
  inferInstanceAs (Decidable (_ < _))

/-- A KEM whose ciphertext shows its secret; a key is its public encoding. -/
def MlKemApi.transparent : MlKemApi Unit (Bytes 1568) (Bytes 1568) where
  contextNewFromPkey _ pkey s := (pkey, s)
  contextNewFromName _ s := (some (.replicate 1568 0), s)
  contextFree _ s := s
  pkeyFree _ s := s
  encapsulateInit _ s := (1, s)
  encapsulate _ ciphertext _ _ _ s :=
    (⟨1, splice ciphertext 0 (.replicate 32 1 : Bytes 32), 1568, .replicate 32 1, 32⟩, s)
  decapsulateInit _ s := (1, s)
  decapsulate _ _ _ ciphertext s := (⟨1, slice ciphertext 0 32, 32⟩, s)
  fromdataInit _ s := (1, s)
  fromdata _ publicKey s :=
    (if firstCoefficientReduced publicKey then (1, some publicKey) else (0, none), s)
  getPublic pkey _ s := (⟨1, pkey, 1568⟩, s)
  qKeygen _ s := (some (.replicate 1568 0), s)

theorem MlKemApi.transparent_fromdata (context publicKey : Bytes 1568) (s : Unit) :
    (transparent.fromdata context publicKey s).1 =
      if firstCoefficientReduced publicKey then (1, some publicKey) else (0, none) := rfl

theorem MlKemApi.transparent_faithful : transparent.Faithful firstCoefficientReduced where
  contextNewFromName _ _ := rfl
  fromdataInit _ _ := Int.one_pos
  fromdata_accepted := by
    intro context publicKey s h
    rw [transparent_fromdata, if_pos h]
    exact ⟨Int.one_pos, rfl⟩
  fromdata_refused := by
    intro context publicKey s h
    rw [transparent_fromdata, if_neg h]
  getPublic_fromdata := by
    intro context publicKey s pkey hStatus hPkey output t
    rw [transparent_fromdata] at hPkey
    split_ifs at hPkey
    exact ⟨Int.one_pos, rfl, (Option.some.inj hPkey).symm⟩

section Parameters

variable [Libcrypto] {params : List OsslParam} {request : OsslParam} {region bytes : List UInt8}

/-- The array gives these bytes as the encoded public key. -/
def Gives (params : List OsslParam) (bytes : List UInt8) : Prop :=
  ∃ param, Libcrypto.locate params encodedPublicKeyName = some param ∧
    param.dataType = .octetString ∧ param.data = .bytes bytes

/-- The array asks for the encoded public key and has room for it. -/
structure Asks (params : List OsslParam) (request : OsslParam) (region : List UInt8) : Prop where
  located : Libcrypto.locate params encodedPublicKeyName = some request
  octets : request.dataType = .octetString
  buffer : request.data = .bytes region
  room : 1606 ≤ region.length

def answered (request : OsslParam) (region : List UInt8) (encoded : Bytes 1606) : OsslParam :=
  { request with data := .bytes (encoded.1 ++ region.drop 1606), returnSize := some 1606 }

theorem getStrictOctetString_gives (h : Gives params bytes) :
    getStrictOctetString (some params) encodedPublicKeyName 1606 false =
      if bytes.length = 1606 then some (.bytes bytes) else none := by
  obtain ⟨param, hLocate, hType, hData⟩ := h
  split_ifs with hLength
  · have hLocated : Shim.located (some params) encodedPublicKeyName = some param := hLocate
    exact (Shim.getStrictOctetString_eq_some_iff false hLocated).mpr
      ⟨hType, bytes, hData, hLength, rfl⟩
  · simp [getStrictOctetString, hLocate, hType, hData, ByteInput.isNull, ByteInput.length, hLength]

end Parameters

/-- The canonical encoding that a parsed encoding is written back as. -/
def canonicalEncoding (encoded : Bytes 1606) : Bytes 1606 :=
  concat (slice encoded 0 1568 mlkemPart_le) (canonicalForm (slice encoded 1568 38 x301Part_le))

theorem slice_canonicalEncoding_head (encoded : Bytes 1606) :
    slice (canonicalEncoding encoded) 0 1568 = slice encoded 0 1568 :=
  slice_concat_left (slice encoded 0 1568) (canonicalForm (slice encoded 1568 38)) (by decide)

theorem canonicalEncoding_canonicalEncoding (encoded : Bytes 1606) :
    canonicalEncoding (canonicalEncoding encoded) = canonicalEncoding encoded := by
  have hTail : slice (canonicalEncoding encoded) 1568 38 = canonicalForm (slice encoded 1568 38) :=
    slice_concat_right (slice encoded 0 1568) (canonicalForm (slice encoded 1568 38)) (by decide)
  rw [canonicalEncoding, slice_canonicalEncoding_head, hTail, canonicalForm_canonicalForm]
  rfl

section Shares

variable [ModularInverse] (runtime : Runtime σ)

theorem decapsulateX301_congr {Caller : Type} {tail tail' : Bytes 38}
    (h : decodedU tail = decodedU tail') (own : Option X301Key) :
    (decapsulateX301 runtime.rustApi provider own tail :
      Cleanup (KemFrame σ X301Key X301Exchange Context Caller) Unit) =
    decapsulateX301 runtime.rustApi provider own tail' := by
  have hCanonical : canonicalForm tail = canonicalForm tail' := congrArg Fe301.oracleBytes h
  have hSet : ∀ peer, runtime.rustApi.keySetEncodedPublic peer tail =
      runtime.rustApi.keySetEncodedPublic peer tail' := by
    intro peer
    have hRust : Rust.keySetEncodedPublic (some peer) (.bytes tail.1) =
        Rust.keySetEncodedPublic (some peer) (.bytes tail'.1) := by
      simp only [Rust.keySetEncodedPublic, Rust.readOptionalPublic_bytes, hCanonical]
    exact congrArg (runtime.guarded "key_set_encoded_public" peer) hRust
  simp only [decapsulateX301, hSet]

theorem hybridDecapsulate_congr (context : Option (HybridKemContext (HybridKey X301Key Pkey)))
    (output : OutputBuffer) {c c' : Bytes 1606} (hHead : slice c 0 1568 = slice c' 0 1568)
    (hTail : decodedU (slice c 1568 38) = decodedU (slice c' 1568 38)) (s : σ) :
    hybridDecapsulate runtime.rustApi mlkem context output (.bytes c.1) s =
      hybridDecapsulate runtime.rustApi mlkem context output (.bytes c'.1) s := by
  have hBody : ∀ provider (key : HybridKey X301Key Pkey) sharedSecret,
      decapsulateBody runtime.rustApi mlkem provider key c sharedSecret =
        decapsulateBody runtime.rustApi mlkem provider key c' sharedSecret := by
    intro provider key sharedSecret
    simp only [decapsulateBody, hHead, decapsulateX301_congr runtime hTail]
  obtain ⟨memory, _ | length⟩ := output
  · rfl
  · simp only [hybridDecapsulate, toArray_val, hBody]

end Shares

section Keys

variable [ModularInverse] [Libcrypto] [ParamSetters] (runtime : Runtime σ)
  {key : HybridKey X301Key Pkey} {encoded : Bytes 1606} {bytes : List UInt8}

variable (mlkem) in
/-- Every query with room is answered with these bytes. -/
def ReadsAs (key : HybridKey X301Key Pkey) (encoded : Bytes 1606) : Prop :=
  ∀ params request region stack s, Asks params request region →
    (setOptionalInts params hybridIntParams).1 = true →
    (hybridKeyGetParams runtime.rustApi mlkem (some key) (some params) stack s).1.value =
      (1, (setOptionalInts params hybridIntParams).2 ++ [answered request region encoded])

variable (mlkem) in
def Unreadable (key : HybridKey X301Key Pkey) : Prop :=
  ∀ params request stack s, Libcrypto.locate params encodedPublicKeyName = some request →
    (hybridKeyGetParams runtime.rustApi mlkem (some key) (some params) stack s).1.value.1 = 0

theorem hybridKeyGetParams_eq {x301 : X301Key} {state : KeyState} {x301Public : Bytes 38}
    {params : List OsslParam} {request : OsslParam} {region : List UInt8}
    (hState : state.atLeastPublic = true) (hPublic : x301.publicKey = some x301Public)
    (hAsks : Asks params request region) (hInts : (setOptionalInts params hybridIntParams).1 = true)
    (stack : Bytes 1606) (s : σ) :
    (hybridKeyGetParams runtime.rustApi mlkem (some ⟨some provider, some x301, some pkey, state⟩)
      (some params) stack s).1.value =
      if (mlkemGetPublic mlkem (some pkey) (slice stack 0 1568) s).1.1 then
        (1, (setOptionalInts params hybridIntParams).2 ++ [answered request region
          (concat (mlkemGetPublic mlkem (some pkey) (slice stack 0 1568) s).1.2 x301Public)])
      else (0, (setOptionalInts params hybridIntParams).2) := by
  rcases hSet : setOptionalInts params hybridIntParams with ⟨set, written⟩
  rw [hSet] at hInts
  obtain rfl := hInts
  rcases hRead : mlkemGetPublic mlkem (some pkey) (slice stack 0 1568) s with ⟨⟨read, mlkemPublic⟩, t⟩
  have hLength : (concat mlkemPublic x301Public).1.length ≤ region.length :=
    (concat mlkemPublic x301Public).2.trans_le hAsks.room
  have hAnswer := ParamSetters.setOctetString_eq request region (concat mlkemPublic x301Public).1
    hAsks.octets hAsks.buffer hLength
  cases read with
  | false =>
    simp [hybridKeyGetParams, hSet, hAsks.located, hState, hRead]
  | true =>
    simp [hybridKeyGetParams, hSet, hAsks.located, hState, hRead,
      runtime.keyGetPublic_of_public hPublic, setOptional, hAnswer, answered]

theorem readsAs_of_encodes {x301 : X301Key} {state : KeyState} {x301Public : Bytes 38}
    {mlkemPublic : Bytes 1568} (hState : state.atLeastPublic = true)
    (hPublic : x301.publicKey = some x301Public) (hEncodes : mlkem.Encodes pkey mlkemPublic) :
    ReadsAs mlkem runtime ⟨some provider, some x301, some pkey, state⟩
      (concat mlkemPublic x301Public) := by
  intro params request region stack s hAsks hInts
  rw [hybridKeyGetParams_eq runtime hState hPublic hAsks hInts, hEncodes]
  rfl

theorem unreadable_of_empty (hState : key.state = .keyEmpty) : Unreadable mlkem runtime key := by
  intro params request stack s hLocate
  cases hProvider : key.provider with
  | none =>
    simp [hybridKeyGetParams, hProvider]
  | some provider =>
    rcases hSet : setOptionalInts params hybridIntParams with ⟨_ | _, written⟩
    · simp [hybridKeyGetParams, hProvider, hSet]
    · simp [hybridKeyGetParams, hProvider, hSet, hLocate, hState, KeyState.atLeastPublic]

structure HybridKey.Fresh (key : HybridKey X301Key Pkey) (provider : ProviderContext) : Prop where
  provider_eq : key.provider = some provider
  initialized : provider.Initialized
  state_eq : key.state = .keyEmpty

omit [ParamSetters] in
theorem hybridKeySetParams_gives {params : List OsslParam} (hProvider : key.provider = some provider)
    (hRust : provider.hasRust = true) (hState : key.state = .keyEmpty) (hGives : Gives params bytes)
    (s : σ) :
    hybridKeySetParams runtime.rustApi mlkem (some key) (some params) s =
      match toArray 1606 bytes with
      | none => (⟨(0, some key), raise provider .invalidParameter
          "invalid X301MLKEM1024 encoded public key parameter"⟩, s)
      | some encoded => setPublicComponents runtime.rustApi mlkem provider key encoded s := by
  have hGet := getStrictOctetString_gives hGives
  cases hArray : toArray 1606 bytes with
  | none =>
    rw [if_neg (toArray_eq_none_iff.mp hArray)] at hGet
    simp [hybridKeySetParams, hProvider, hRust, hState, hGet]
  | some encoded =>
    obtain rfl := toArray_eq_some_iff.mp hArray
    rw [if_pos encoded.2] at hGet
    simp [hybridKeySetParams, hProvider, hRust, hState, hGet]

section Stored

variable {runtime} (hRuntime : runtime.NeverFails) (hMlkem : mlkem.Faithful accepts)

include hRuntime hMlkem

omit [Libcrypto] [ParamSetters] in
theorem setPublicComponents_accepted (key : HybridKey X301Key Pkey) (hProvider : provider.Initialized)
    (h : accepts (slice encoded 0 1568)) (s : σ) :
    ∃ pkey, mlkem.Encodes pkey (slice encoded 0 1568) ∧
      (setPublicComponents runtime.rustApi mlkem provider key encoded s).1.value =
        (1, some { key with
          x301 := some ⟨none, some (canonicalForm (slice encoded 1568 38))⟩
          mlkem := some pkey
          state := .keyPublic }) := by
  obtain ⟨pkey, s₁, hImport, hEncodes⟩ := hMlkem.import_accepted hProvider h s
  obtain ⟨s₂, hNew⟩ := hRuntime.newObject "key_new" Rust.keyNew s₁
  have hKey : runtime.rustApi.keyNew s₁ = (some ⟨none, none⟩, s₂) := hNew
  obtain ⟨s₃, hGuarded⟩ := hRuntime.guarded
    (Rust.keySetEncodedPublic_fresh (slice encoded 1568 38)) "key_set_encoded_public" ⟨none, none⟩ s₂
  have hSet : runtime.rustApi.keySetEncodedPublic ⟨none, none⟩ (slice encoded 1568 38) s₂ =
      ((1, ⟨none, some (canonicalForm (slice encoded 1568 38))⟩), s₃) := hGuarded
  refine ⟨pkey, hEncodes, ?_⟩
  simp [setPublicComponents, hImport, hKey, hSet]

omit hRuntime [Libcrypto] [ParamSetters] in
theorem setPublicComponents_refused (key : HybridKey X301Key Pkey) (h : ¬accepts (slice encoded 0 1568)) (s : σ) :
    (setPublicComponents runtime.rustApi mlkem provider key encoded s).1.value = (0, some key) := by
  rcases hImport : mlkemImportPublic mlkem provider (slice encoded 0 1568) s with ⟨pkey, s₁⟩
  have hNone : (mlkemImportPublic mlkem provider (slice encoded 0 1568) s).1 = none :=
    hMlkem.import_refused h s
  rw [hImport] at hNone
  obtain rfl := hNone
  simp only [setPublicComponents, hImport]

theorem hybridKeySetParams_accepted {params : List OsslParam} (hKey : key.Fresh provider)
    (hGives : Gives params encoded.1) (h : accepts (slice encoded 0 1568)) (s : σ) :
    ∃ new, (hybridKeySetParams runtime.rustApi mlkem (some key) (some params) s).1.value =
      (1, some new) ∧ ReadsAs mlkem runtime new (canonicalEncoding encoded) := by
  obtain ⟨pkey, hEncodes, hSet⟩ :=
    setPublicComponents_accepted hRuntime hMlkem key hKey.initialized h s
  rw [hybridKeySetParams_gives runtime hKey.provider_eq hKey.initialized.hasRust hKey.state_eq hGives,
    toArray_val]
  refine ⟨_, hSet, ?_⟩
  rw [hKey.provider_eq]
  exact readsAs_of_encodes runtime rfl rfl hEncodes

omit hRuntime [ParamSetters] in
theorem hybridKeySetParams_refused {params : List OsslParam} (hKey : key.Fresh provider)
    (hGives : Gives params bytes)
    (h : ¬∃ encoded : Bytes 1606, encoded.1 = bytes ∧ accepts (slice encoded 0 1568)) (s : σ) :
    (hybridKeySetParams runtime.rustApi mlkem (some key) (some params) s).1.value =
      (0, some key) := by
  rw [hybridKeySetParams_gives runtime hKey.provider_eq hKey.initialized.hasRust hKey.state_eq hGives]
  cases hArray : toArray 1606 bytes with
  | none => rfl
  | some encoded =>
    apply setPublicComponents_refused hMlkem
    exact fun hAccepts => h ⟨encoded, (toArray_eq_some_iff.mp hArray).symm, hAccepts⟩

end Stored

/-- Hybrid public keys and shares are read and written consistently. -/
theorem hybridPublicKey_consistent (hRuntime : runtime.NeverFails)
    (hMlkem : mlkem.Faithful accepts) (hKey : key.Fresh provider) :
    (∀ bytes params s, Gives params bytes →
      ((hybridKeySetParams runtime.rustApi mlkem (some key) (some params) s).1.value.1 = 1 ↔
        ∃ encoded : Bytes 1606, encoded.1 = bytes ∧ accepts (slice encoded 0 1568)) ∧
      ∀ encoded : Bytes 1606, encoded.1 = bytes → accepts (slice encoded 0 1568) →
        ∃ new, (hybridKeySetParams runtime.rustApi mlkem (some key) (some params) s).1.value =
            (1, some new) ∧
          ReadsAs mlkem runtime new (canonicalEncoding encoded) ∧
          ∀ (other : HybridKey X301Key Pkey) otherProvider, other.Fresh otherProvider →
            ∀ otherParams t, Gives otherParams (canonicalEncoding encoded).1 →
              ∃ again, (hybridKeySetParams runtime.rustApi mlkem (some other) (some otherParams)
                  t).1.value = (1, some again) ∧
                ReadsAs mlkem runtime again (canonicalEncoding encoded)) ∧
    (∀ (faulty : Runtime σ) (faultyMlkem : MlKemApi σ Pkey Context) params s,
      (hybridKeySetParams faulty.rustApi faultyMlkem (some key) params s).1.value.1 ≠ 1 →
      (hybridKeySetParams faulty.rustApi faultyMlkem (some key) params s).1.value.2 = some key ∧
      key.state = .keyEmpty ∧ Unreadable mlkem runtime key ∧
      ∀ (encoded : Bytes 1606) later t, Gives later encoded.1 → accepts (slice encoded 0 1568) →
        (hybridKeySetParams runtime.rustApi mlkem (some key) (some later) t).1.value.1 = 1) ∧
    ∀ context output (c c' : Bytes 1606) s, slice c 0 1568 = slice c' 0 1568 →
      decodedU (slice c 1568 38) = decodedU (slice c' 1568 38) →
      hybridDecapsulate runtime.rustApi mlkem context output (.bytes c.1) s =
        hybridDecapsulate runtime.rustApi mlkem context output (.bytes c'.1) s := by
  refine ⟨?_, ?_, ?_⟩
  · intro bytes params s hGives
    constructor
    · constructor
      · intro hOne
        by_contra hNone
        rw [hybridKeySetParams_refused hMlkem hKey hGives hNone] at hOne
        cases hOne
      · rintro ⟨encoded, rfl, hAccepts⟩
        obtain ⟨new, hNew, -⟩ := hybridKeySetParams_accepted hRuntime hMlkem hKey hGives hAccepts s
        rw [hNew]
    · rintro encoded rfl hAccepts
      obtain ⟨new, hNew, hReads⟩ :=
        hybridKeySetParams_accepted hRuntime hMlkem hKey hGives hAccepts s
      refine ⟨new, hNew, hReads, ?_⟩
      intro other otherProvider hOther otherParams t hOtherGives
      have hAgain := hybridKeySetParams_accepted hRuntime hMlkem hOther hOtherGives
        ((slice_canonicalEncoding_head encoded).symm ▸ hAccepts) t
      rwa [canonicalEncoding_canonicalEncoding] at hAgain
  · intro faulty faultyMlkem params s hFailed
    refine ⟨?_, hKey.state_eq, unreadable_of_empty runtime hKey.state_eq, ?_⟩
    · rcases hybridKeySetParams_cases faulty faultyMlkem key params s with
        hSame | ⟨-, encoded, pkey, -, hFilled⟩
      · exact hSame
      · rw [hFilled] at hFailed
        exact absurd rfl hFailed
    · intro encoded later t hGives hAccepts
      obtain ⟨new, hNew, -⟩ := hybridKeySetParams_accepted hRuntime hMlkem hKey hGives hAccepts t
      rw [hNew]
  · intro context output c c' s hHead hTail
    exact hybridDecapsulate_congr runtime context output hHead hTail s

end Keys

def encodingParams (bytes : List UInt8) : List OsslParam :=
  [⟨encodedPublicKeyName, .octetString, .bytes bytes, none⟩]

theorem gives_encodingParams (bytes : List UInt8) : @Gives .firstMatch (encodingParams bytes) bytes := by
  refine ⟨⟨encodedPublicKeyName, .octetString, .bytes bytes, none⟩, ?_, rfl, rfl⟩
  exact List.find?_cons_of_pos (beq_self_eq_true _)

theorem locate_encodingParams {name : String} (h : (encodedPublicKeyName == name) = false)
    (region : List UInt8) : @Libcrypto.locate .firstMatch (encodingParams region) name = none := by
  apply List.find?_cons_of_neg
  rw [h]
  exact Bool.false_ne_true

theorem setOptionalInts_encodingParams [ParamSetters] (region : List UInt8) :
    @setOptionalInts .firstMatch _ (encodingParams region) hybridIntParams = (true, []) := by
  have hBits : (encodedPublicKeyName == bitsName) = false := by decide
  have hSecurityBits : (encodedPublicKeyName == securityBitsName) = false := by decide
  have hMaxSize : (encodedPublicKeyName == maxSizeName) = false := by decide
  simp only [hybridIntParams, setOptionalInts, locate_encodingParams, hBits, hSecurityBits,
    hMaxSize, setOptional, List.append_nil]

theorem asks_encodingParams {region : List UInt8} (h : 1606 ≤ region.length) :
    @Asks .firstMatch (encodingParams region) ⟨encodedPublicKeyName, .octetString, .bytes region,
      none⟩ region :=
  @Asks.mk .firstMatch _ _ _ (List.find?_cons_of_pos (beq_self_eq_true _)) rfl rfl h

theorem firstCoefficientReduced_zeros : firstCoefficientReduced (.replicate 1568 0) := by
  decide

/-- A key encoding of zeros, and an empty key to set it on. -/
def zeroEncoding : Bytes 1606 := concat (.replicate 1568 0 : Bytes 1568) (.replicate 38 0 : Bytes 38)

def freshKey : HybridKey X301Key (Bytes 1568) :=
  ⟨some ⟨0, true, true, true, true⟩, none, none, .keyEmpty⟩

theorem freshKey_fresh : freshKey.Fresh ⟨0, true, true, true, true⟩ := ⟨rfl, ⟨rfl, rfl⟩, rfl⟩

theorem hybridPublicKey_consistent_zeros :
    letI := ModularInverse.zeroAtZero
    letI := Libcrypto.firstMatch
    letI := ParamSetters.inPlace
    ∃ new, (hybridKeySetParams Runtime.steady.rustApi .transparent (some freshKey)
        (some (encodingParams zeroEncoding.1)) ()).1.value = (1, some new) ∧
      ReadsAs .transparent Runtime.steady new (canonicalEncoding zeroEncoding) := by
  obtain ⟨hSet, -⟩ := @hybridPublicKey_consistent _ _ _ _ _ _ .zeroAtZero .firstMatch .inPlace
    Runtime.steady _ Runtime.steady_neverFails MlKemApi.transparent_faithful freshKey_fresh
  obtain ⟨-, hAccepted⟩ := hSet zeroEncoding.1 _ () (gives_encodingParams zeroEncoding.1)
  have hZeros : slice zeroEncoding 0 1568 = .replicate 1568 0 :=
    slice_concat_left (.replicate 1568 0 : Bytes 1568) (.replicate 38 0 : Bytes 38) (by decide)
  have hAccepts : firstCoefficientReduced (slice zeroEncoding 0 1568) := by
    rw [hZeros]
    exact firstCoefficientReduced_zeros
  obtain ⟨new, hNew, hReads, -⟩ := hAccepted zeroEncoding rfl hAccepts
  exact ⟨new, hNew, hReads⟩

end X301Provider
