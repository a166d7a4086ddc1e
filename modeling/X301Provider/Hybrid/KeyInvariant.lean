import X301Provider.Hybrid.Kem
import X301Provider.Provider.KeyInvariant

/-!
# What a hybrid key holds

The state tag says which components are there and what the X301 component
contains. One lemma per function says what it returns.
-/

namespace X301Provider

open Limbs X301 ByteRegion

variable {σ Pkey Context Ref : Type}

/-- The key came from key generation, so it has a private part. -/
def MlKemApi.Generated (mlkem : MlKemApi σ Pkey Context) (pkey : Pkey) : Prop :=
  ∃ provider s, (mlkem.qKeygen provider s).1 = some pkey

/-- The key came from the import of a public key. -/
def MlKemApi.Imported (mlkem : MlKemApi σ Pkey Context) (publicKey : Bytes 1568) (pkey : Pkey) :
    Prop :=
  ∃ provider s, (mlkemImportPublic mlkem provider publicKey s).1 = some pkey

/-- The tag, the two pointers and the contents of the Rust key are in step. -/
def HybridKey.WellFormed (mlkem : MlKemApi σ Pkey Context) (key : HybridKey X301Key Pkey) : Prop :=
  match key.state with
  | .keyEmpty => key.x301 = none ∧ key.mlkem = none
  | .keyPublic => ∃ (encoded : Bytes 1606) (pkey : Pkey),
      key.x301 = some ⟨none, some (canonicalForm (slice encoded 1568 38 x301Part_le))⟩ ∧
      key.mlkem = some pkey ∧ mlkem.Imported (slice encoded 0 1568 mlkemPart_le) pkey
  | .keyPrivate => ∃ (secret : Bytes 38) (pkey : Pkey),
      key.x301 = some ⟨some secret, some (publicOf secret)⟩ ∧
      key.mlkem = some pkey ∧ mlkem.Generated pkey

namespace HybridKey

variable {mlkem : MlKemApi σ Pkey Context} {key : HybridKey X301Key Pkey} {pkey : Pkey}

theorem wellFormed_empty (provider : Option ProviderContext) :
    (⟨provider, none, none, .keyEmpty⟩ : HybridKey X301Key Pkey).WellFormed mlkem := ⟨rfl, rfl⟩

theorem wellFormed_public (provider : Option ProviderContext) (encoded : Bytes 1606)
    (h : mlkem.Imported (slice encoded 0 1568) pkey) :
    (⟨provider, some ⟨none, some (canonicalForm (slice encoded 1568 38))⟩, some pkey,
      .keyPublic⟩ : HybridKey X301Key Pkey).WellFormed mlkem := ⟨encoded, pkey, rfl, rfl, h⟩

theorem wellFormed_private (provider : Option ProviderContext) (secret : Bytes 38)
    (h : mlkem.Generated pkey) :
    (⟨provider, some ⟨some secret, some (publicOf secret)⟩, some pkey,
      .keyPrivate⟩ : HybridKey X301Key Pkey).WellFormed mlkem := ⟨secret, pkey, rfl, rfl, h⟩

theorem WellFormed.of_empty (h : key.WellFormed mlkem) (hState : key.state = .keyEmpty) :
    key.x301 = none ∧ key.mlkem = none := by
  rw [WellFormed, hState] at h
  exact h

theorem WellFormed.of_public (h : key.WellFormed mlkem) (hState : key.state = .keyPublic) :
    ∃ (encoded : Bytes 1606) (pkey : Pkey),
      key.x301 = some ⟨none, some (canonicalForm (slice encoded 1568 38))⟩ ∧
      key.mlkem = some pkey ∧ mlkem.Imported (slice encoded 0 1568) pkey := by
  rw [WellFormed, hState] at h
  exact h

theorem WellFormed.of_private (h : key.WellFormed mlkem) (hState : key.state = .keyPrivate) :
    ∃ (secret : Bytes 38) (pkey : Pkey),
      key.x301 = some ⟨some secret, some (publicOf secret)⟩ ∧
      key.mlkem = some pkey ∧ mlkem.Generated pkey := by
  rw [WellFormed, hState] at h
  exact h

/-- The answer, which looks at the tag only, is true of the two components. -/
theorem WellFormed.hybridKeyHas_eq_one_iff (h : key.WellFormed mlkem) (selection : Selection) :
    hybridKeyHas (some key) selection = 1 ↔
      (wantsPrivate selection = true → ∃ own, key.x301 = some own ∧
        own.privateKey.isSome = true ∧ key.mlkem.isSome = true) ∧
      (wantsPublic selection = true → ∃ own, key.x301 = some own ∧
        own.publicKey.isSome = true ∧ key.mlkem.isSome = true) := by
  cases hState : key.state with
  | keyEmpty =>
    obtain ⟨hX301, -⟩ := h.of_empty hState
    simp [hybridKeyHas, hState, hX301, KeyState.atLeastPublic]
    cases wantsPrivate selection <;> cases wantsPublic selection <;> decide
  | keyPublic =>
    obtain ⟨encoded, pkey, hX301, hMlkem, -⟩ := h.of_public hState
    simp [hybridKeyHas, hState, hX301, hMlkem, KeyState.atLeastPublic]
  | keyPrivate =>
    obtain ⟨secret, pkey, hX301, hMlkem, -⟩ := h.of_private hState
    simp [hybridKeyHas, hState, hX301, hMlkem, KeyState.atLeastPublic]

end HybridKey

theorem Rust.keyGenerate_eq_some [ModularInverse] {fillRandom : Option FillRandom}
    {allocates : Bool} {key : X301Key} (h : Rust.keyGenerate fillRandom allocates = some key) :
    ∃ secret, key = ⟨some secret, some (publicOf secret)⟩ := by
  rcases Rust.keyGenerate_cases fillRandom allocates with hNone | ⟨secret, hSome⟩
  · rw [hNone] at h
    cases h
  · rw [hSome] at h
    exact ⟨secret, (Option.some.inj h).symm⟩

namespace Runtime

variable (runtime : Runtime σ)

theorem newObject_eq_some {α : Type} {site : String} {build : Bool → Option α} {s : σ} {object : α}
    (h : (runtime.newObject site build s).1 = some object) :
    ∃ allocates, build allocates = some object := by
  rw [newObject] at h
  split at h
  · cases h
  · exact ⟨_, h⟩

theorem guarded_eq_one {α : Type} {name : String} {object : α} {operation : ℤ × Option α} {s : σ}
    (h : (runtime.guarded name object operation s).1.1 = 1) :
    operation.1 = 1 ∧ (runtime.guarded name object operation s).1.2 = operation.2.getD object := by
  rw [guarded] at h ⊢
  split at h
  · cases h
  · exact ⟨h, rfl⟩

variable [ModularInverse]

theorem keyNew_eq_some {s : σ} {key : X301Key} (h : (runtime.rustApi.keyNew s).1 = some key) :
    key = ⟨none, none⟩ := by
  obtain ⟨_ | _, hNew⟩ := runtime.newObject_eq_some h
  · cases hNew
  · exact (Option.some.inj hNew).symm

theorem keyGenerate_eq_some {provider : ProviderContext} {s : σ} {key : X301Key}
    (h : (runtime.rustApi.keyGenerate provider s).1 = some key) :
    ∃ secret, key = ⟨some secret, some (publicOf secret)⟩ := by
  dsimp only [rustApi] at h
  split at h
  · cases h
  · dsimp only at h
    exact Rust.keyGenerate_eq_some h

theorem keySetEncodedPublic_eq_one {encoded : Bytes 38} {s : σ}
    (h : (runtime.rustApi.keySetEncodedPublic ⟨none, none⟩ encoded s).1.1 = 1) :
    (runtime.rustApi.keySetEncodedPublic ⟨none, none⟩ encoded s).1.2 =
      ⟨none, some (canonicalForm encoded)⟩ := by
  obtain ⟨-, hKey⟩ := runtime.guarded_eq_one h
  refine hKey.trans ?_
  simp [Rust.keySetEncodedPublic, Rust.conflict]

end Runtime

section Calls

variable {Key Exchange : Type}

theorem hybridKeyNew_eq_some {provider : Option ProviderContext} {allocates : Bool}
    {key : HybridKey Key Pkey} (h : (hybridKeyNew provider allocates).value = some key) :
    key = ⟨provider, none, none, .keyEmpty⟩ := by
  rw [hybridKeyNew] at h
  split_ifs at h
  exact (Option.some.inj h).symm

/-- Setting the components either changes nothing, or fills both from successful calls. -/
theorem setPublicComponents_cases (rust : RustApi σ Key Exchange)
    (mlkem : MlKemApi σ Pkey Context) (provider : ProviderContext) (key : HybridKey Key Pkey)
    (encoded : Bytes 1606) (s : σ) :
    (setPublicComponents rust mlkem provider key encoded s).1.value = (0, some key) ∨
      ∃ pkey x301 t u, mlkem.Imported (slice encoded 0 1568) pkey ∧
        (rust.keyNew t).1 = some x301 ∧
        (rust.keySetEncodedPublic x301 (slice encoded 1568 38) u).1.1 = 1 ∧
        (setPublicComponents rust mlkem provider key encoded s).1.value =
          (1, some { key with
            x301 := some (rust.keySetEncodedPublic x301 (slice encoded 1568 38) u).1.2
            mlkem := some pkey
            state := .keyPublic }) := by
  rcases hImport : mlkemImportPublic mlkem provider (slice encoded 0 1568) s with ⟨pkey, t⟩
  rcases hNew : rust.keyNew t with ⟨x301, u⟩
  simp only [setPublicComponents, hImport, hNew]
  cases pkey with
  | none =>
    exact Or.inl rfl
  | some pkey =>
    cases x301 with
    | none =>
      exact Or.inl rfl
    | some x301 =>
      dsimp only
      split
      · exact Or.inl rfl
      · rename_i hStatus
        exact Or.inr ⟨pkey, x301, t, u, ⟨provider, s, congrArg Prod.fst hImport⟩,
          congrArg Prod.fst hNew, not_not.mp hStatus, rfl⟩

variable [ModularInverse] [Libcrypto] (runtime : Runtime σ) (mlkem : MlKemApi σ Pkey Context)

theorem hybridKeySetParams_cases (key : HybridKey X301Key Pkey) (params : ParamArray) (s : σ) :
    (hybridKeySetParams runtime.rustApi mlkem (some key) params s).1.value.2 = some key ∨
      key.state = .keyEmpty ∧ ∃ (encoded : Bytes 1606) (pkey : Pkey),
        mlkem.Imported (slice encoded 0 1568) pkey ∧
        (hybridKeySetParams runtime.rustApi mlkem (some key) params s).1.value =
          (1, some { key with
            x301 := some ⟨none, some (canonicalForm (slice encoded 1568 38))⟩
            mlkem := some pkey
            state := .keyPublic }) := by
  rw [hybridKeySetParams]
  dsimp only
  split
  · exact Or.inl rfl
  · rename_i provider hProvider
    split_ifs with hRust hState
    · exact Or.inl rfl
    · exact Or.inl rfl
    · split
      · exact Or.inl rfl
      · exact Or.inl rfl
      · split
        · exact Or.inl rfl
        · rename_i encoded hArray
          rcases setPublicComponents_cases runtime.rustApi mlkem provider key encoded s with
            hSame | ⟨pkey, x301, t, u, hImported, hNew, hSet, hFilled⟩
          · exact Or.inl (congrArg Prod.snd hSame)
          · obtain rfl := runtime.keyNew_eq_some hNew
            rw [runtime.keySetEncodedPublic_eq_one hSet] at hFilled
            exact Or.inr ⟨not_not.mp hState, encoded, pkey, hImported, hFilled⟩

omit [Libcrypto] in
theorem generateRawKey_eq_some {runtime : Runtime σ} {provider : ProviderContext} {s : σ}
    {key : X301Key} (h : (generateRawKey runtime.rustApi provider s).1 = some key) :
    ∃ secret, key = ⟨some secret, some (publicOf secret)⟩ := by
  rw [generateRawKey] at h
  split_ifs at h
  exact runtime.keyGenerate_eq_some h

omit [Libcrypto] in
theorem hybridGen_cases (generation : Option HybridGenContext) (allocates : Bool) (s : σ) :
    (hybridGen runtime.rustApi mlkem generation allocates s).1.value = none ∨
      ∃ provider, (hybridGen runtime.rustApi mlkem generation allocates s).1.value =
          some ⟨provider, none, none, .keyEmpty⟩ ∨
        ∃ secret pkey, mlkem.Generated pkey ∧
          (hybridGen runtime.rustApi mlkem generation allocates s).1.value =
            some ⟨provider, some ⟨some secret, some (publicOf secret)⟩, some pkey, .keyPrivate⟩ := by
  rcases generation with _ | ⟨_ | provider, keypair⟩
  · exact Or.inl rfl
  · exact Or.inl rfl
  · rcases hNew : (hybridKeyNew (some provider) allocates :
      Reported (Option (HybridKey X301Key Pkey))) with ⟨_ | key, errors⟩
    · exact Or.inl (by simp only [hybridGen, hNew])
    · obtain rfl := hybridKeyNew_eq_some (congrArg Reported.value hNew)
      rcases hRaw : generateRawKey runtime.rustApi provider s with ⟨x301, t⟩
      rcases hKeygen : mlkem.qKeygen provider t with ⟨pkey, u⟩
      simp only [hybridGen, hNew, hRaw, hKeygen]
      cases keypair with
      | false => exact Or.inr ⟨some provider, Or.inl rfl⟩
      | true =>
        cases x301 with
        | none =>
          exact Or.inl rfl
        | some x301 =>
          cases pkey with
          | none =>
            exact Or.inl rfl
          | some pkey =>
            obtain ⟨secret, rfl⟩ := generateRawKey_eq_some (congrArg Prod.fst hRaw)
            exact Or.inr ⟨some provider, Or.inr
              ⟨secret, pkey, ⟨provider, t, congrArg Prod.fst hKeygen⟩, rfl⟩⟩

omit [ModularInverse] [Libcrypto] in
theorem hybridKemInit_cases (context : Option (HybridKemContext Ref))
    (key : Option (Ref × HybridKey X301Key Pkey)) (params : ParamArray)
    (operation : KemOperation) :
    (hybridKemInit context key params operation).value = (0, context) ∨
      ∃ old pointer object, context = some old ∧ key = some (pointer, object) ∧
        Shim.sameProvider object.provider old.provider = true ∧
        operation.suits object.state = true ∧
        (hybridKemInit context key params operation).value =
          (1, some { old with key := some pointer, operation }) := by
  cases context with
  | none =>
    exact Or.inl rfl
  | some old =>
    rw [hybridKemInit]
    split
    · exact Or.inl rfl
    · rename_i provider hProvider
      dsimp only
      split_ifs with hParams
      · exact Or.inl rfl
      · split
        · exact Or.inl rfl
        · rename_i pointer object
          split_ifs with hUnfit
          · exact Or.inl rfl
          · rw [Bool.or_eq_true, not_or] at hUnfit
            exact Or.inr ⟨old, pointer, object, rfl, rfl, by simpa using hUnfit.1,
              by simpa using hUnfit.2, rfl⟩

end Calls

end X301Provider
