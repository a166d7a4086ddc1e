import X301Provider.Hybrid.KeyInvariant
import X301Provider.Provider.KeyStore

/-!
# Runs of the hybrid adapter

Any number of hybrid keys and KEM contexts, driven by calls with arbitrary
pointers, parameters and callees. A context keeps the pointer that its
initialization checked; what was checked stays true because a key that has left
the empty state never changes again.
-/

namespace X301Provider

open Limbs X301 ByteRegion

inductive HybridCall
  | keyNew (provider : Option ProviderContext) (allocates : Bool)
  | gen (generation : Option HybridGenContext) (allocates : Bool)
  | keySetParams (key : Option Handle) (params : ParamArray)
  | kemNew (provider : Option ProviderContext) (allocates : Bool)
  | kemFree (context : Option Handle)
  | encapsulateInit (context key : Option Handle) (params : ParamArray)
  | decapsulateInit (context key : Option Handle) (params : ParamArray)
  | encapsulate (context : Option Handle) (output : EncapsulateOutput)
  | decapsulate (context : Option Handle) (output : OutputBuffer) (ciphertext : ByteInput)

/-- The live keys and contexts, and the state outside. -/
structure HybridStore (σ Pkey : Type) where
  keys : ObjectStore (HybridKey X301Key Pkey)
  contexts : ObjectStore (HybridKemContext Handle)
  callees : σ

section Roles

variable {σ Pkey Context : Type}

/-- `rust`, with `other` in its place where a peer has no public value. -/
def RustApi.expectingPublic (rust other : RustApi σ X301Key X301Exchange) :
    RustApi σ X301Key X301Exchange :=
  { rust with exchangeSetPeer := fun exchange peer =>
      if (peer.bind X301Key.publicKey).isSome then rust.exchangeSetPeer exchange peer
      else other.exchangeSetPeer exchange peer }

/-- `rust`, with `other` in its place where an own key has no private value. -/
def RustApi.expectingPrivate (rust other : RustApi σ X301Key X301Exchange) :
    RustApi σ X301Key X301Exchange :=
  { rust with exchangeInit := fun exchange key =>
      if (key.bind X301Key.privateKey).isSome then rust.exchangeInit exchange key
      else other.exchangeInit exchange key }

/-- `mlkem`, with `other` in its place where the key is null. -/
def MlKemApi.expectingKey (mlkem other : MlKemApi σ Pkey Context) : MlKemApi σ Pkey Context :=
  { mlkem with contextNewFromPkey := fun provider pkey =>
      if pkey.isSome then mlkem.contextNewFromPkey provider pkey
      else other.contextNewFromPkey provider pkey }

variable (rust other : RustApi σ X301Key X301Exchange) (mlkem otherMlkem : MlKemApi σ Pkey Context)
  (provider keyProvider : Option ProviderContext) (state : KeyState) (operation : KemOperation)
  (pkey : Pkey)

theorem hybridEncapsulate_expecting (secret : Option (Bytes 38)) (encoded : Bytes 38)
    (output : EncapsulateOutput) (s : σ) :
    let context : HybridKemContext (HybridKey X301Key Pkey) := ⟨provider,
      some ⟨keyProvider, some ⟨secret, some encoded⟩, some pkey, state⟩, operation⟩
    hybridEncapsulate (rust.expectingPublic other) (mlkem.expectingKey otherMlkem) (some context)
      output s = hybridEncapsulate rust mlkem (some context) output s := by
  cases operation with
  | kemNone => rfl
  | kemEncapsulate => rfl
  | kemDecapsulate => rfl

theorem hybridEncapsulate_idle (context : HybridKemContext (HybridKey X301Key Pkey))
    (h : context.operation ≠ .kemEncapsulate) (output : EncapsulateOutput) (s : σ) :
    hybridEncapsulate (rust.expectingPublic other) (mlkem.expectingKey otherMlkem) (some context)
      output s = hybridEncapsulate rust mlkem (some context) output s := by
  obtain ⟨_ | provider, key, operation⟩ := context
  · rfl
  · cases operation with
    | kemNone => rfl
    | kemEncapsulate => exact absurd rfl h
    | kemDecapsulate => rfl

theorem hybridDecapsulate_idle (context : HybridKemContext (HybridKey X301Key Pkey))
    (h : context.operation ≠ .kemDecapsulate) (output : OutputBuffer) (ciphertext : ByteInput)
    (s : σ) :
    hybridDecapsulate (rust.expectingPrivate other) (mlkem.expectingKey otherMlkem) (some context)
      output ciphertext s = hybridDecapsulate rust mlkem (some context) output ciphertext s := by
  obtain ⟨_ | provider, key, operation⟩ := context
  · rfl
  · cases operation with
    | kemNone => rfl
    | kemEncapsulate => rfl
    | kemDecapsulate => exact absurd rfl h

theorem hybridDecapsulate_expecting (secret : Bytes 38) (encoded : Option (Bytes 38))
    (output : OutputBuffer) (ciphertext : ByteInput) (s : σ) :
    let context : HybridKemContext (HybridKey X301Key Pkey) := ⟨provider,
      some ⟨keyProvider, some ⟨some secret, encoded⟩, some pkey, state⟩, operation⟩
    hybridDecapsulate (rust.expectingPrivate other) (mlkem.expectingKey otherMlkem) (some context)
      output ciphertext s = hybridDecapsulate rust mlkem (some context) output ciphertext s := by
  cases operation with
  | kemNone => rfl
  | kemEncapsulate => rfl
  | kemDecapsulate => rfl

end Roles

namespace HybridStore

variable {σ Pkey Context : Type} {store : HybridStore σ Pkey} {handle : Handle}
  {key : HybridKey X301Key Pkey} {context : HybridKemContext Handle}

def start (s : σ) : HybridStore σ Pkey := ⟨.empty, .empty, s⟩

def keyAt (store : HybridStore σ Pkey) (pointer : Option Handle) :
    Option (Handle × HybridKey X301Key Pkey) :=
  pointer.bind fun handle => (store.keys.get handle).map fun key => (handle, key)

/-- A context with the key that it refers to. -/
def resolve (store : HybridStore σ Pkey) (context : HybridKemContext Handle) :
    HybridKemContext (HybridKey X301Key Pkey) :=
  ⟨context.provider, store.keys.deref context.key, context.operation⟩

/-- What an init function answers, written to the context. -/
def initContext (store : HybridStore σ Pkey) (context : Option Handle)
    (answer : Reported (ℤ × Option (HybridKemContext Handle))) :
    CallResult × HybridStore σ Pkey :=
  let ⟨(status, object), _⟩ := answer
  (.status status, { store with contexts := store.contexts.write context object })

theorem initContext_cases (pointer key : Option Handle) (params : ParamArray)
    (operation : KemOperation) :
    store.initContext pointer (hybridKemInit (store.contexts.deref pointer) (store.keyAt key) params
        operation) = (.status 0, store) ∨
      ∃ handle old position object, store.contexts.get handle = some old ∧
        store.keys.get position = some object ∧
        Shim.sameProvider object.provider old.provider = true ∧
        operation.suits object.state = true ∧
        store.initContext pointer (hybridKemInit (store.contexts.deref pointer) (store.keyAt key)
          params operation) = (.status 1, { store with
          contexts := store.contexts.set handle { old with key := some position, operation } }) := by
  rcases hybridKemInit_cases (store.contexts.deref pointer) (store.keyAt key) params operation with
    hSame | ⟨old, position, object, hContext, hKey, hProvider, hSuits, hNew⟩
  · left
    simp only [initContext, hSame, ObjectStore.write_deref]
  · right
    obtain ⟨handle, -, hGet⟩ := Option.bind_eq_some_iff.mp hKey
    obtain ⟨found, hFound, hPair⟩ := Option.map_eq_some_iff.mp hGet
    obtain ⟨rfl, rfl⟩ := Prod.mk.inj hPair
    cases pointer with
    | none =>
      cases hContext
    | some context =>
      refine ⟨context, old, _, _, hContext, hFound, hProvider, hSuits, ?_⟩
      simp only [initContext, hNew]
      rfl

variable [ModularInverse] [Libcrypto] (runtime : Runtime σ) (mlkem : MlKemApi σ Pkey Context)

def call (store : HybridStore σ Pkey) : HybridCall → CallResult × HybridStore σ Pkey
  | .keyNew provider allocates =>
    let (pointer, keys) := store.keys.insertOption (hybridKeyNew provider allocates).value
    (.pointer pointer, { store with keys })
  | .gen generation allocates =>
    let (⟨key, _⟩, callees) :=
      hybridGen runtime.rustApi mlkem generation allocates store.callees
    let (pointer, keys) := store.keys.insertOption key
    (.pointer pointer, { store with keys, callees })
  | .keySetParams key params =>
    let (⟨(status, object), _⟩, callees) :=
      hybridKeySetParams runtime.rustApi mlkem (store.keys.deref key) params store.callees
    (.status status, { store with keys := store.keys.write key object, callees })
  | .kemNew provider allocates =>
    let (pointer, contexts) := store.contexts.insertOption (hybridKemNew provider allocates).value
    (.pointer pointer, { store with contexts })
  | .kemFree context =>
    (.void, { store with contexts := match context with
      | none => store.contexts
      | some handle => store.contexts.free handle })
  | .encapsulateInit context key params =>
    store.initContext context
      (hybridEncapsulateInit (store.contexts.deref context) (store.keyAt key) params)
  | .decapsulateInit context key params =>
    store.initContext context
      (hybridDecapsulateInit (store.contexts.deref context) (store.keyAt key) params)
  | .encapsulate context output =>
    let outcome := hybridEncapsulate runtime.rustApi mlkem
      ((store.contexts.deref context).map store.resolve) output store.callees
    (.status outcome.status, { store with callees := outcome.callees })
  | .decapsulate context output ciphertext =>
    let outcome := hybridDecapsulate runtime.rustApi mlkem
      ((store.contexts.deref context).map store.resolve) output ciphertext store.callees
    (.status outcome.status, { store with callees := outcome.callees })

def run (store : HybridStore σ Pkey) (calls : List HybridCall) : HybridStore σ Pkey :=
  calls.foldl (fun store next => (store.call runtime mlkem next).2) store

/-! ### What a call does to the keys and contexts -/

theorem call_keys (next : HybridCall) :
    (store.call runtime mlkem next).2.keys = store.keys ∨
      (∃ key, key.WellFormed mlkem ∧
        (store.call runtime mlkem next).1 = .pointer (some store.keys.next) ∧
        (store.call runtime mlkem next).2.keys = store.keys.insert key) ∨
      ∃ handle old new, store.keys.get handle = some old ∧ old.state = .keyEmpty ∧
        new.WellFormed mlkem ∧ (store.call runtime mlkem next).1 = .status 1 ∧
        (store.call runtime mlkem next).2.keys = store.keys.set handle new := by
  cases next with
  | keyNew provider allocates =>
    cases hNew : (hybridKeyNew provider allocates :
      Reported (Option (HybridKey X301Key Pkey))).value with
    | none =>
      left
      simp only [call, hNew]
      rfl
    | some key =>
      right
      left
      obtain rfl := hybridKeyNew_eq_some hNew
      refine ⟨_, HybridKey.wellFormed_empty provider, ?_⟩
      simp only [call, hNew]
      exact ⟨rfl, rfl⟩
  | gen generation allocates =>
    rcases hGen : hybridGen runtime.rustApi mlkem generation allocates store.callees with
      ⟨⟨object, errors⟩, callees⟩
    have hCases := hybridGen_cases runtime mlkem generation allocates store.callees
    simp only [hGen] at hCases
    simp only [call, hGen]
    rcases hCases with rfl | ⟨provider, rfl | ⟨secret, pkey, hGenerated, rfl⟩⟩
    · exact Or.inl rfl
    · exact Or.inr (Or.inl ⟨_, HybridKey.wellFormed_empty provider, rfl, rfl⟩)
    · exact Or.inr (Or.inl ⟨_, HybridKey.wellFormed_private provider secret hGenerated, rfl, rfl⟩)
  | keySetParams pointer params =>
    cases hKey : store.keys.deref pointer with
    | none =>
      left
      simp only [call, hKey, hybridKeySetParams]
      rw [← hKey]
      exact ObjectStore.write_deref pointer
    | some key =>
      rcases hSet : hybridKeySetParams runtime.rustApi mlkem (some key) params store.callees with
        ⟨⟨⟨status, object⟩, errors⟩, callees⟩
      have hCases := hybridKeySetParams_cases runtime mlkem key params store.callees
      simp only [hSet] at hCases
      simp only [call, hKey, hSet]
      rcases hCases with rfl | ⟨hState, encoded, pkey, hImported, hFilled⟩
      · left
        rw [← hKey]
        exact ObjectStore.write_deref pointer
      · obtain ⟨rfl, rfl⟩ := Prod.mk.inj hFilled
        cases pointer with
        | none =>
          cases hKey
        | some handle =>
          exact Or.inr (Or.inr ⟨handle, key, _, hKey, hState,
            HybridKey.wellFormed_public key.provider encoded hImported, rfl, rfl⟩)
  | kemNew provider allocates => exact Or.inl rfl
  | kemFree pointer => exact Or.inl rfl
  | encapsulateInit pointer key params => exact Or.inl rfl
  | decapsulateInit pointer key params => exact Or.inl rfl
  | encapsulate pointer output => exact Or.inl rfl
  | decapsulate pointer output ciphertext => exact Or.inl rfl

theorem call_contexts (next : HybridCall) :
    (store.call runtime mlkem next).2.contexts = store.contexts ∨
      (∃ context : HybridKemContext Handle, context.operation = .kemNone ∧
        (store.call runtime mlkem next).1 = .pointer (some store.contexts.next) ∧
        (store.call runtime mlkem next).2.contexts = store.contexts.insert context) ∨
      (∃ handle, (store.call runtime mlkem next).1 = .void ∧
        (store.call runtime mlkem next).2.contexts = store.contexts.free handle) ∨
      ∃ handle old pointer key operation, store.contexts.get handle = some old ∧
        store.keys.get pointer = some key ∧
        Shim.sameProvider key.provider old.provider = true ∧
        operation.suits key.state = true ∧ operation ≠ .kemNone ∧
        (store.call runtime mlkem next).1 = .status 1 ∧
        (store.call runtime mlkem next).2.contexts =
          store.contexts.set handle { old with key := some pointer, operation } := by
  cases next with
  | keyNew provider allocates => exact Or.inl rfl
  | gen generation allocates => exact Or.inl rfl
  | keySetParams pointer params => exact Or.inl rfl
  | kemNew provider allocates =>
    rw [call, hybridKemNew]
    split_ifs
    · exact Or.inr (Or.inl ⟨_, rfl, rfl, rfl⟩)
    · exact Or.inl rfl
  | kemFree pointer =>
    cases pointer with
    | none => exact Or.inl rfl
    | some handle => exact Or.inr (Or.inr (Or.inl ⟨handle, rfl, rfl⟩))
  | encapsulateInit pointer key params =>
    rcases store.initContext_cases pointer key params .kemEncapsulate with
      hSame | ⟨handle, old, position, object, hGet, hKey, hProvider, hSuits, hNew⟩
    · left
      rw [call, hybridEncapsulateInit, hSame]
    · right; right; right
      refine ⟨handle, old, position, object, _, hGet, hKey, hProvider, hSuits, ?_⟩
      rw [call, hybridEncapsulateInit, hNew]
      exact ⟨nofun, rfl, rfl⟩
  | decapsulateInit pointer key params =>
    rcases store.initContext_cases pointer key params .kemDecapsulate with
      hSame | ⟨handle, old, position, object, hGet, hKey, hProvider, hSuits, hNew⟩
    · left
      rw [call, hybridDecapsulateInit, hSame]
    · right; right; right
      refine ⟨handle, old, position, object, _, hGet, hKey, hProvider, hSuits, ?_⟩
      rw [call, hybridDecapsulateInit, hNew]
      exact ⟨nofun, rfl, rfl⟩
  | encapsulate pointer output => exact Or.inl rfl
  | decapsulate pointer output ciphertext => exact Or.inl rfl

theorem call_of_failed (next : HybridCall) (h : (store.call runtime mlkem next).1.Failed) :
    (store.call runtime mlkem next).2.keys = store.keys ∧
      (store.call runtime mlkem next).2.contexts = store.contexts := by
  constructor
  · rcases store.call_keys runtime mlkem next with
      hSame | ⟨key, -, hResult, -⟩ | ⟨handle, old, new, -, -, -, hResult, -⟩
    · exact hSame
    · rw [hResult] at h
      rcases h with h | h <;> cases h
    · rw [hResult] at h
      rcases h with h | h <;> cases h
  · rcases store.call_contexts runtime mlkem next with
      hSame | ⟨context, -, hResult, -⟩ | ⟨handle, hResult, -⟩ |
        ⟨handle, old, pointer, key, operation, -, -, -, -, -, hResult, -⟩
    · exact hSame
    · rw [hResult] at h
      rcases h with h | h <;> cases h
    · rw [hResult] at h
      rcases h with h | h <;> cases h
    · rw [hResult] at h
      rcases h with h | h <;> cases h

/-! ### What holds in every reachable store -/

/-- A key that has left the empty state never changes again. -/
theorem call_keeps (next : HybridCall) (hGet : store.keys.get handle = some key)
    (hState : key.state ≠ .keyEmpty) :
    (store.call runtime mlkem next).2.keys.get handle = some key := by
  rcases store.call_keys runtime mlkem next with
    hSame | ⟨new, -, -, hInsert⟩ | ⟨position, old, new, hOld, hEmpty, -, -, hSet⟩
  · rw [hSame]
    exact hGet
  · rw [hInsert]
    exact ObjectStore.get_insert_of_some hGet
  · have hNe : handle ≠ position := by
      rintro rfl
      rw [hGet] at hOld
      obtain rfl := Option.some.inj hOld
      exact hState hEmpty
    rw [hSet, ObjectStore.get_set_of_ne hNe]
    exact hGet

omit [ModularInverse] [Libcrypto] in
theorem ne_empty_of_suits {operation : KemOperation} {state : KeyState}
    (hOperation : operation ≠ .kemNone) (h : operation.suits state = true) :
    state ≠ .keyEmpty := by
  rintro rfl
  cases operation with
  | kemNone => exact hOperation rfl
  | kemEncapsulate => cases h
  | kemDecapsulate => cases h

/-- An initialised context refers to a key of its provider that suits its operation. -/
def Refers (store : HybridStore σ Pkey) (context : HybridKemContext Handle) : Prop :=
  context.operation ≠ .kemNone → ∃ position key, context.key = some position ∧
    store.keys.get position = some key ∧
    Shim.sameProvider key.provider context.provider = true ∧
    context.operation.suits key.state = true

structure Sound (store : HybridStore σ Pkey) : Prop where
  keys : store.keys.All (HybridKey.WellFormed mlkem)
  contexts : store.contexts.All store.Refers

omit [ModularInverse] [Libcrypto] in
theorem sound_start (s : σ) : (start s).Sound mlkem :=
  ⟨ObjectStore.all_empty, ObjectStore.all_empty⟩

theorem Refers.call (next : HybridCall) (h : store.Refers context) :
    (store.call runtime mlkem next).2.Refers context := by
  intro hOperation
  obtain ⟨position, key, hKey, hGet, hProvider, hSuits⟩ := h hOperation
  exact ⟨position, key, hKey,
    store.call_keeps runtime mlkem next hGet (ne_empty_of_suits hOperation hSuits),
    hProvider, hSuits⟩

/-- What one call preserves. -/
theorem Sound.call (h : store.Sound mlkem) (next : HybridCall) :
    (store.call runtime mlkem next).2.Sound mlkem := by
  constructor
  · rcases store.call_keys runtime mlkem next with
      hSame | ⟨new, hNew, -, hInsert⟩ | ⟨position, old, new, -, -, hNew, -, hSet⟩
    · rw [hSame]
      exact h.keys
    · rw [hInsert]
      exact h.keys.insert hNew
    · rw [hSet]
      exact h.keys.set hNew
  · have hKept : store.contexts.All (store.call runtime mlkem next).2.Refers :=
      h.contexts.mono fun context hContext => hContext.call runtime mlkem next
    rcases store.call_contexts runtime mlkem next with
      hSame | ⟨context, hIdle, -, hInsert⟩ | ⟨handle, -, hFree⟩ |
        ⟨handle, old, pointer, key, operation, -, hKey, hProvider, hSuits, hOperation, -, hSet⟩
    · rw [hSame]
      exact hKept
    · rw [hInsert]
      exact hKept.insert fun hOperation => absurd hIdle hOperation
    · rw [hFree]
      exact hKept.free
    · rw [hSet]
      refine hKept.set fun _ => ⟨pointer, key, rfl, ?_, hProvider, hSuits⟩
      exact store.call_keeps runtime mlkem next hKey (ne_empty_of_suits hOperation hSuits)

theorem Sound.run (h : store.Sound mlkem) (calls : List HybridCall) :
    (store.run runtime mlkem calls).Sound mlkem := by
  induction calls generalizing store with
  | nil => exact h
  | cons next calls ih => exact ih (h.call runtime mlkem next)

theorem run_keeps (calls : List HybridCall) (hGet : store.keys.get handle = some key)
    (hState : key.state ≠ .keyEmpty) :
    (store.run runtime mlkem calls).keys.get handle = some key := by
  induction calls generalizing store with
  | nil => exact hGet
  | cons next calls ih => exact ih (store.call_keeps runtime mlkem next hGet hState)

/-! ### Components and their roles -/

variable {mlkem} in
omit [ModularInverse] [Libcrypto] in
theorem Sound.components (h : store.Sound mlkem) (hGet : store.contexts.get handle = some context)
    (hOperation : context.operation ≠ .kemNone) :
    ∃ keyProvider secret encoded pkey state,
      store.resolve context = ⟨context.provider,
        some ⟨keyProvider, some ⟨secret, some encoded⟩, some pkey, state⟩, context.operation⟩ ∧
      (context.operation = .kemDecapsulate → secret.isSome = true) := by
  obtain ⟨position, key, hKey, hLive, -, hSuits⟩ := h.contexts handle context hGet hOperation
  have hResolve : store.resolve context = ⟨context.provider, some key, context.operation⟩ := by
    rw [resolve, hKey, ObjectStore.deref_some, hLive]
  have hWellFormed := h.keys position key hLive
  obtain ⟨keyProvider, x301, mlkemKey, state⟩ := key
  cases state with
  | keyEmpty => exact absurd rfl (ne_empty_of_suits hOperation hSuits)
  | keyPublic =>
    obtain ⟨encoded, pkey, rfl, rfl, -⟩ := hWellFormed.of_public rfl
    refine ⟨keyProvider, none, _, pkey, .keyPublic, hResolve, ?_⟩
    intro hDecapsulate
    rw [hDecapsulate] at hSuits
    cases hSuits
  | keyPrivate =>
    obtain ⟨secret, pkey, rfl, rfl, -⟩ := hWellFormed.of_private rfl
    exact ⟨keyProvider, some secret, _, pkey, .keyPrivate, hResolve, fun _ => rfl⟩

variable {mlkem} in
omit [ModularInverse] [Libcrypto] in
/-- Neither operation hands over a missing component or one of the wrong role: what the callees
would do with one makes no difference. -/
theorem Sound.roles (h : store.Sound mlkem) (hGet : store.contexts.get handle = some context)
    (rust other : RustApi σ X301Key X301Exchange) (otherMlkem : MlKemApi σ Pkey Context) (s : σ) :
    (∀ output, hybridEncapsulate (rust.expectingPublic other) (mlkem.expectingKey otherMlkem)
      (some (store.resolve context)) output s =
        hybridEncapsulate rust mlkem (some (store.resolve context)) output s) ∧
    ∀ output ciphertext, hybridDecapsulate (rust.expectingPrivate other)
      (mlkem.expectingKey otherMlkem) (some (store.resolve context)) output ciphertext s =
        hybridDecapsulate rust mlkem (some (store.resolve context)) output ciphertext s := by
  constructor
  · intro output
    by_cases hOperation : context.operation = .kemEncapsulate
    · obtain ⟨keyProvider, secret, encoded, pkey, state, hResolve, -⟩ :=
        h.components hGet (by rw [hOperation]; exact nofun)
      rw [hResolve]
      exact hybridEncapsulate_expecting ..
    · exact hybridEncapsulate_idle _ _ _ _ _ hOperation output s
  · intro output ciphertext
    by_cases hOperation : context.operation = .kemDecapsulate
    · obtain ⟨keyProvider, secret, encoded, pkey, state, hResolve, hSecret⟩ :=
        h.components hGet (by rw [hOperation]; exact nofun)
      obtain ⟨secret, rfl⟩ := Option.isSome_iff_exists.mp (hSecret hOperation)
      rw [hResolve]
      exact hybridDecapsulate_expecting ..
    · exact hybridDecapsulate_idle _ _ _ _ _ hOperation output ciphertext s

variable {mlkem} in
omit [Libcrypto] in
theorem state_sound (h : key.WellFormed mlkem) :
    (key.state = .keyEmpty ↔ key.x301 = none ∧ key.mlkem = none) ∧
    (key.state = .keyPublic → ∃ x301 pkey, key.x301 = some x301 ∧ key.mlkem = some pkey ∧
      x301.publicKey.isSome = true ∧ x301.privateKey = none ∧
      ∃ publicKey, mlkem.Imported publicKey pkey) ∧
    (key.state = .keyPrivate → ∃ x301 pkey secret encoded, key.x301 = some x301 ∧
      key.mlkem = some pkey ∧ x301.privateKey = some secret ∧ x301.publicKey = some encoded ∧
      publicFromSecret secret.1 = .ok encoded ∧ mlkem.Generated pkey) := by
  refine ⟨⟨h.of_empty, ?_⟩, ?_, ?_⟩
  · rintro ⟨hX301, -⟩
    cases hState : key.state with
    | keyEmpty => rfl
    | keyPublic =>
      obtain ⟨_, _, hSome, -⟩ := h.of_public hState
      rw [hX301] at hSome
      cases hSome
    | keyPrivate =>
      obtain ⟨_, _, hSome, -⟩ := h.of_private hState
      rw [hX301] at hSome
      cases hSome
  · intro hState
    obtain ⟨encoded, pkey, hX301, hMlkem, hImported⟩ := h.of_public hState
    exact ⟨_, pkey, hX301, hMlkem, rfl, rfl, _, hImported⟩
  · intro hState
    obtain ⟨secret, pkey, hX301, hMlkem, hGenerated⟩ := h.of_private hState
    exact ⟨_, pkey, secret, _, hX301, hMlkem, rfl, rfl, publicFromSecret_eq_publicOf secret,
      hGenerated⟩

/-- Every reachable store: the tags of the keys, the keys of the contexts, the roles of the
components, and the atomicity of calls that fail. -/
theorem reachable_states (calls : List HybridCall) (s : σ) :
    let store := (start s).run runtime mlkem calls
    (∀ handle key, store.keys.get handle = some key →
      ((key.state = .keyEmpty ↔ key.x301 = none ∧ key.mlkem = none) ∧
        (key.state = .keyPublic → ∃ x301 pkey, key.x301 = some x301 ∧ key.mlkem = some pkey ∧
          x301.publicKey.isSome = true ∧ x301.privateKey = none ∧
          ∃ publicKey, mlkem.Imported publicKey pkey) ∧
        (key.state = .keyPrivate → ∃ x301 pkey secret encoded, key.x301 = some x301 ∧
          key.mlkem = some pkey ∧ x301.privateKey = some secret ∧ x301.publicKey = some encoded ∧
          publicFromSecret secret.1 = .ok encoded ∧ mlkem.Generated pkey)) ∧
      (key.state ≠ .keyEmpty → ∀ later,
        (store.run runtime mlkem later).keys.get handle = some key)) ∧
    (∀ handle context, store.contexts.get handle = some context →
      (context.operation ≠ .kemNone → ∃ position key, context.key = some position ∧
        store.keys.get position = some key ∧
        Shim.sameProvider key.provider context.provider = true ∧
        (context.operation = .kemEncapsulate → key.state.atLeastPublic = true) ∧
        (context.operation = .kemDecapsulate → key.state = .keyPrivate)) ∧
      ∀ rust other otherMlkem t,
        (∀ output, hybridEncapsulate (RustApi.expectingPublic rust other)
          (mlkem.expectingKey otherMlkem) (some (store.resolve context)) output t =
            hybridEncapsulate rust mlkem (some (store.resolve context)) output t) ∧
        ∀ output ciphertext, hybridDecapsulate (RustApi.expectingPrivate rust other)
          (mlkem.expectingKey otherMlkem) (some (store.resolve context)) output ciphertext t =
            hybridDecapsulate rust mlkem (some (store.resolve context)) output ciphertext t) ∧
    ∀ next, (store.call runtime mlkem next).1.Failed →
      (store.call runtime mlkem next).2.keys = store.keys ∧
        (store.call runtime mlkem next).2.contexts = store.contexts := by
  intro store
  have hSound : store.Sound mlkem := (sound_start mlkem s).run runtime mlkem calls
  refine ⟨?_, ?_, ?_⟩
  · intro handle key hGet
    exact ⟨state_sound (hSound.keys handle key hGet),
      fun hState later => run_keeps runtime mlkem later hGet hState⟩
  · intro handle context hGet
    refine ⟨?_, fun rust other otherMlkem t => hSound.roles hGet rust other otherMlkem t⟩
    intro hOperation
    obtain ⟨position, key, hKey, hLive, hProvider, hSuits⟩ :=
      hSound.contexts handle context hGet hOperation
    refine ⟨position, key, hKey, hLive, hProvider, ?_, ?_⟩
    · intro hEncapsulate
      rw [hEncapsulate] at hSuits
      exact hSuits
    · intro hDecapsulate
      rw [hDecapsulate] at hSuits
      exact beq_iff_eq.mp hSuits
  · exact fun next hFailed => call_of_failed runtime mlkem next hFailed

end HybridStore

end X301Provider
