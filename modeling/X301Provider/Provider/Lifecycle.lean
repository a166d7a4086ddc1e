import X301Provider.Provider.CoreVersion
import X301Provider.Provider.DrbgInvariant

/-!
# The life of a provider

The entry point checks its arguments, the function table of the Rust side and the version of
the core before it takes anything. What a provider context holds is accounted for from there,
through the calls of any number of threads, to the teardown.
-/

namespace X301Provider

/-- What a provider context holds. The null provider that the hybrid build loads for a moment
belongs to the library context. -/
inductive ProviderResource
  | memory
  | libctx
  | lock
  | generator (resource : DrbgResource)
  deriving DecidableEq

abbrev ProviderTrace := List (ResourceEvent ProviderResource)

/-- The function table of the Rust side, as the shim reads it. -/
structure X301RustApi where
  abiVersion : ℕ
  structSize : ℕ
  secretBytes : ℕ
  publicBytes : ℕ
  sharedBytes : ℕ
  keyNew : Option Handle
  keyFree : Option Handle
  keyImport : Option Handle
  keySetEncodedPublic : Option Handle
  keyGenerate : Option Handle
  keyDuplicate : Option Handle
  keyHas : Option Handle
  keyValidate : Option Handle
  keyMatch : Option Handle
  keyGetPrivate : Option Handle
  keyGetPublic : Option Handle
  exchangeNew : Option Handle
  exchangeFree : Option Handle
  exchangeDuplicate : Option Handle
  exchangeInit : Option Handle
  exchangeSetPeer : Option Handle
  exchangeDerive : Option Handle
  cleanse : Option Handle

namespace X301RustApi

/-- The size of the table: its numbers and pointers in words of eight bytes. -/
def size : ℕ := 8 * (2 + 3 + 18)

def functions (rust : X301RustApi) : List (Option Handle) :=
  [rust.keyNew, rust.keyFree, rust.keyImport, rust.keySetEncodedPublic, rust.keyGenerate,
    rust.keyDuplicate, rust.keyHas, rust.keyValidate, rust.keyMatch, rust.keyGetPrivate,
    rust.keyGetPublic, rust.exchangeNew, rust.exchangeFree, rust.exchangeDuplicate,
    rust.exchangeInit, rust.exchangeSetPeer, rust.exchangeDerive, rust.cleanse]

/-- `x301_rust_api_is_valid` of a table. -/
def isValid (rust : X301RustApi) : Bool :=
  rust.abiVersion == 1 && rust.structSize == size && rust.secretBytes == 38 &&
    rust.publicBytes == 38 && rust.sharedBytes == 38 && rust.functions.all Option.isSome

end X301RustApi

/-- The identifiers of a dispatch table that the shim looks for. -/
inductive FunctionId
  | endOfTable
  | coreGetParams
  | cryptoZalloc
  | cryptoClearFree
  | coreNewError
  | coreSetErrorDebug
  | coreVsetError
  | other (functionId : ℕ)
  deriving DecidableEq

structure OsslDispatch where
  functionId : FunctionId
  function : Option Handle

/-- The functions of the core that the scan has found. -/
structure CoreFunctions where
  coreGetParams : Option Handle := none
  zalloc : Option Handle := none
  clearFree : Option Handle := none
  newError : Option Handle := none
  setErrorDebug : Option Handle := none
  vsetError : Option Handle := none

/-- One entry of the table; a later entry of the same identifier replaces an earlier one. -/
def CoreFunctions.scan (functions : CoreFunctions) (dispatch : OsslDispatch) : CoreFunctions :=
  match dispatch.functionId with
  | .coreGetParams => { functions with coreGetParams := dispatch.function }
  | .cryptoZalloc => { functions with zalloc := dispatch.function }
  | .cryptoClearFree => { functions with clearFree := dispatch.function }
  | .coreNewError => { functions with newError := dispatch.function }
  | .coreSetErrorDebug => { functions with setErrorDebug := dispatch.function }
  | .coreVsetError => { functions with vsetError := dispatch.function }
  | .endOfTable => functions
  | .other _ => functions

/-- The loop over the table up to its terminator. -/
def readDispatch (inputDispatch : List OsslDispatch) : CoreFunctions :=
  (inputDispatch.takeWhile fun dispatch => dispatch.functionId ≠ .endOfTable).foldl .scan {}

inductive ProviderFunction
  | teardown
  | gettableParams
  | getParams
  | getReasonStrings
  | queryOperation
  | getCapabilities
  deriving DecidableEq

/-- `X301_PROVIDER_DISPATCH`. -/
def providerDispatch (build : CoreBuild) : List ProviderFunction :=
  [.teardown, .gettableParams, .getParams, .getReasonStrings, .queryOperation] ++
    if build.enableHybrid then [.getCapabilities] else []

/-- `X301_PROVIDER_CONTEXT` without the generator. -/
structure X301ProviderContext where
  handle : Handle
  zalloc : Handle
  clearFree : Option Handle
  newError : Option Handle
  setErrorDebug : Option Handle
  vsetError : Option Handle
  rust : X301RustApi
  hasLibctx : Bool
  hasLock : Bool

/-- The pointers that the core passes; of the two outputs also what the variables hold. -/
structure InitArguments where
  handle : Option Handle
  inputDispatch : Option (List OsslDispatch)
  outputDispatch : Option (Option (List ProviderFunction))
  providerContext : Option (Option X301ProviderContext)

/-- The answers of the core and of libcrypto. A version that the core gives is a string. -/
structure InitEnvironment where
  getParams : Handle → String → ℤ × Option CText
  zalloc : Handle → Bool
  newChild : Bool
  loadNull : Bool
  unloadNull : ℤ
  lockNew : Bool

/-- The parameter callback of the core behind its address. -/
def InitEnvironment.coreGetParams (environment : InitEnvironment) (function : Handle) :
    CoreGetParams := fun name =>
  ((environment.getParams function name).1,
    (environment.getParams function name).2.map CText.cursor)

structure InitOutcome where
  status : ℤ
  outputDispatch : Option (Option (List ProviderFunction))
  providerContext : Option (Option X301ProviderContext)
  trace : ProviderTrace

/-- The failures after both outputs are cleared. -/
def InitOutcome.failed (trace : ProviderTrace) : InitOutcome := ⟨0, some none, some none, trace⟩

/-- `x301_shim_init` once the table is read: what is taken, and given back on the way out. -/
def shimAcquire (build : CoreBuild) (environment : InitEnvironment)
    (provider : X301ProviderContext) : InitOutcome :=
  if !environment.zalloc provider.zalloc then .failed []
  else if !environment.newChild then .failed [.acquired .memory, .released .memory]
  else
    let trace : ProviderTrace := [.acquired .memory, .acquired .libctx]
    if build.enableHybrid && (!environment.loadNull || environment.unloadNull ≠ 1) then
      .failed (trace ++ [.released .libctx, .released .memory])
    else if !environment.lockNew then .failed (trace ++ [.released .libctx, .released .memory])
    else
      ⟨1, some (some (providerDispatch build)), some (some provider), trace ++ [.acquired .lock]⟩

def shimInit (build : CoreBuild) (arguments : InitArguments) (rust : Option X301RustApi)
    (environment : InitEnvironment) : InitOutcome :=
  match arguments.handle, arguments.inputDispatch, arguments.outputDispatch,
      arguments.providerContext with
  | some handle, some inputDispatch, some _, some _ =>
    match rust with
    | none => .failed []
    | some rust =>
      if !rust.isValid then .failed []
      else
        let functions := readDispatch inputDispatch
        match functions.coreGetParams, functions.zalloc, functions.clearFree with
        | some coreGetParams, some zalloc, some clearFree =>
          if coreVersionIsSupported build false (some (environment.coreGetParams coreGetParams)) ≠
              some true then .failed []
          else
            shimAcquire build environment
              { handle, zalloc, clearFree := some clearFree, newError := functions.newError,
                setErrorDebug := functions.setErrorDebug, vsetError := functions.vsetError,
                rust, hasLibctx := true, hasLock := true }
        | _, _, _ => .failed []
  | _, _, outputDispatch, providerContext => ⟨0, outputDispatch, providerContext, []⟩

/-- `RUST_API`, wherever its functions are. -/
def staticRustApi (address : ℕ → Handle) : X301RustApi where
  abiVersion := 1
  structSize := X301RustApi.size
  secretBytes := 38
  publicBytes := 38
  sharedBytes := 38
  keyNew := address 0
  keyFree := address 1
  keyImport := address 2
  keySetEncodedPublic := address 3
  keyGenerate := address 4
  keyDuplicate := address 5
  keyHas := address 6
  keyValidate := address 7
  keyMatch := address 8
  keyGetPrivate := address 9
  keyGetPublic := address 10
  exchangeNew := address 11
  exchangeFree := address 12
  exchangeDuplicate := address 13
  exchangeInit := address 14
  exchangeSetPeer := address 15
  exchangeDerive := address 16
  cleanse := address 17

/-- `OSSL_provider_init`. -/
def osslProviderInit (build : CoreBuild) (arguments : InitArguments) (address : ℕ → Handle)
    (environment : InitEnvironment) : InitOutcome :=
  if arguments.handle.isNone || arguments.inputDispatch.isNone ||
      arguments.outputDispatch.isNone || arguments.providerContext.isNone then
    ⟨0, arguments.outputDispatch, arguments.providerContext, []⟩
  else shimInit build arguments (some (staticRustApi address)) environment

/-- `x301_provider_teardown`: the generator, the lock, the library context and the memory. -/
def providerTeardown {τ : Type} (provider : Option X301ProviderContext) (world : DrbgWorld τ) :
    ProviderTrace :=
  match provider with
  | none => []
  | some provider =>
    (drbgFree world.drbg).map (ResourceEvent.map .generator) ++
      (if provider.hasLock then [.released .lock] else []) ++
      (if provider.hasLibctx then [.released .libctx] else []) ++
      if provider.clearFree.isSome then [.released .memory] else []

section Table

/-- The function of an identifier in a table: that of the last entry before the terminator. -/
def lastEntry (inputDispatch : List OsslDispatch) (functionId : FunctionId) : Option Handle :=
  ((inputDispatch.takeWhile fun dispatch => dispatch.functionId ≠ .endOfTable).reverse.find?
    fun dispatch => dispatch.functionId = functionId).bind OsslDispatch.function

theorem foldl_scan {field : CoreFunctions → Option Handle} {functionId : FunctionId}
    (hField : ∀ functions dispatch, field (CoreFunctions.scan functions dispatch) =
      if dispatch.functionId = functionId then dispatch.function else field functions)
    (entries : List OsslDispatch) (functions : CoreFunctions) :
    field (entries.foldl .scan functions) =
      ((entries.reverse.find? fun dispatch => dispatch.functionId = functionId).elim
        (field functions) OsslDispatch.function) := by
  induction entries generalizing functions with
  | nil => rfl
  | cons dispatch entries ih =>
    rw [List.foldl_cons, ih, List.reverse_cons, List.find?_append, hField]
    cases entries.reverse.find? fun dispatch => dispatch.functionId = functionId with
    | some found => rfl
    | none =>
      by_cases h : dispatch.functionId = functionId
      · simp [h]
      · simp [h]

theorem readDispatch_field {field : CoreFunctions → Option Handle} {functionId : FunctionId}
    (hField : ∀ functions dispatch, field (CoreFunctions.scan functions dispatch) =
      if dispatch.functionId = functionId then dispatch.function else field functions)
    (hNone : field {} = none) (inputDispatch : List OsslDispatch) :
    field (readDispatch inputDispatch) = lastEntry inputDispatch functionId := by
  rw [readDispatch, foldl_scan hField, hNone, lastEntry]
  cases (inputDispatch.takeWhile fun dispatch =>
    dispatch.functionId ≠ .endOfTable).reverse.find? fun dispatch =>
      dispatch.functionId = functionId <;> rfl

/-- What the scan finds: for every identifier the last entry. -/
theorem readDispatch_eq (inputDispatch : List OsslDispatch) :
    readDispatch inputDispatch = ⟨lastEntry inputDispatch .coreGetParams,
      lastEntry inputDispatch .cryptoZalloc, lastEntry inputDispatch .cryptoClearFree,
      lastEntry inputDispatch .coreNewError, lastEntry inputDispatch .coreSetErrorDebug,
      lastEntry inputDispatch .coreVsetError⟩ := by
  have hScan : ∀ (functions : CoreFunctions) (dispatch : OsslDispatch),
      CoreFunctions.scan functions dispatch =
        ⟨if dispatch.functionId = .coreGetParams then dispatch.function
            else functions.coreGetParams,
          if dispatch.functionId = .cryptoZalloc then dispatch.function else functions.zalloc,
          if dispatch.functionId = .cryptoClearFree then dispatch.function else functions.clearFree,
          if dispatch.functionId = .coreNewError then dispatch.function else functions.newError,
          if dispatch.functionId = .coreSetErrorDebug then dispatch.function
            else functions.setErrorDebug,
          if dispatch.functionId = .coreVsetError then dispatch.function
            else functions.vsetError⟩ := by
    intro functions dispatch
    rw [CoreFunctions.scan]
    cases dispatch.functionId <;> rfl
  rw [← readDispatch_field (fun functions dispatch => congrArg CoreFunctions.coreGetParams
      (hScan functions dispatch)) rfl,
    ← readDispatch_field (fun functions dispatch => congrArg CoreFunctions.zalloc
      (hScan functions dispatch)) rfl,
    ← readDispatch_field (fun functions dispatch => congrArg CoreFunctions.clearFree
      (hScan functions dispatch)) rfl,
    ← readDispatch_field (fun functions dispatch => congrArg CoreFunctions.newError
      (hScan functions dispatch)) rfl,
    ← readDispatch_field (fun functions dispatch => congrArg CoreFunctions.setErrorDebug
      (hScan functions dispatch)) rfl,
    ← readDispatch_field (fun functions dispatch => congrArg CoreFunctions.vsetError
      (hScan functions dispatch)) rfl]

end Table

section Outcomes

variable (build : CoreBuild) (environment : InitEnvironment)

/-- The allocations of the last part succeed. -/
structure Acquires (zalloc : Handle) : Prop where
  zalloc : environment.zalloc zalloc = true
  newChild : environment.newChild = true
  null : build.enableHybrid = true → environment.loadNull = true ∧ environment.unloadNull = 1
  lockNew : environment.lockNew = true

variable {build environment}

theorem shimAcquire_of_acquires {provider : X301ProviderContext}
    (h : Acquires build environment provider.zalloc) :
    shimAcquire build environment provider =
      ⟨1, some (some (providerDispatch build)), some (some provider),
        [.acquired .memory, .acquired .libctx, .acquired .lock]⟩ := by
  have hNull : (build.enableHybrid && (!environment.loadNull || environment.unloadNull ≠ 1)) =
      false := by
    cases hHybrid : build.enableHybrid with
    | false => rfl
    | true =>
      obtain ⟨hLoad, hUnload⟩ := h.null hHybrid
      simp [hLoad, hUnload]
  simp only [shimAcquire, h.zalloc, h.newChild, hNull, h.lockNew, Bool.not_true,
    Bool.false_eq_true, if_false]
  rfl

/-- Whatever fails, what was taken is given back. -/
theorem shimAcquire_of_not {provider : X301ProviderContext}
    (h : ¬Acquires build environment provider.zalloc) :
    ∃ trace, shimAcquire build environment provider = .failed trace ∧
      ∀ resource, ResourceEvent.ReleasedOnce trace resource := by
  have hBoth : ∀ resource, ResourceEvent.ReleasedOnce ([.acquired .memory, .acquired .libctx,
      .released .libctx, .released .memory] : ProviderTrace) resource :=
    @ResourceEvent.releasedOnce_of_perm ProviderResource _ [.memory, .libctx] [.libctx, .memory]
      (by decide) (by decide)
  rw [shimAcquire]
  split_ifs with hZalloc hChild hNull hLock
  · exact ⟨_, rfl, fun _ => Or.inl rfl⟩
  · exact ⟨_, rfl, @ResourceEvent.releasedOnce_of_perm ProviderResource _ [.memory] [.memory]
      (by decide) (List.Perm.refl _)⟩
  · exact ⟨_, rfl, hBoth⟩
  · exact ⟨_, rfl, hBoth⟩
  · refine absurd ⟨?_, ?_, ?_, ?_⟩ h
    · simpa using hZalloc
    · simpa using hChild
    · simpa using hNull
    · simpa using hLock

/-- What the entry point needs from the core's table, its version and the allocations. -/
structure Admits (build : CoreBuild) (inputDispatch : List OsslDispatch)
    (environment : InitEnvironment) (coreGetParams zalloc clearFree : Handle) : Prop where
  findsGetParams : lastEntry inputDispatch .coreGetParams = some coreGetParams
  findsZalloc : lastEntry inputDispatch .cryptoZalloc = some zalloc
  findsClearFree : lastEntry inputDispatch .cryptoClearFree = some clearFree
  version : ∃ text, environment.getParams coreGetParams coreVersionName = (1, some text) ∧
    VersionSupported build text.chars
  acquires : Acquires build environment zalloc

/-- The version gate on a core that answers with strings. -/
theorem coreVersion_iff (coreGetParams : Handle) :
    coreVersionIsSupported build false (some (environment.coreGetParams coreGetParams)) =
        some true ↔
      ∃ text, environment.getParams coreGetParams coreVersionName = (1, some text) ∧
        VersionSupported build text.chars := by
  rw [coreVersionIsSupported, InitEnvironment.coreGetParams]
  obtain ⟨status, version⟩ := environment.getParams coreGetParams coreVersionName
  cases version with
  | none => simp
  | some text =>
    obtain ⟨supported, hGate, hIff⟩ := versionIsSupported_spec build text.nul_not_mem
    by_cases hStatus : status = 1
    · subst hStatus
      simp only [Bool.false_eq_true, if_false, Option.map_some, CText.cursor, hGate, ne_eq,
        not_true_eq_false, Option.some.injEq, Prod.mk.injEq, true_and, exists_eq_left', hIff]
    · simp [hStatus]

/-- The context that a successful start leaves. -/
def startedContext (handle : Handle) (inputDispatch : List OsslDispatch) (rust : X301RustApi)
    (zalloc clearFree : Handle) : X301ProviderContext where
  handle := handle
  zalloc := zalloc
  clearFree := some clearFree
  newError := lastEntry inputDispatch .coreNewError
  setErrorDebug := lastEntry inputDispatch .coreSetErrorDebug
  vsetError := lastEntry inputDispatch .coreVsetError
  rust := rust
  hasLibctx := true
  hasLock := true

theorem staticRustApi_isValid (address : ℕ → Handle) : (staticRustApi address).isValid = true := rfl

variable (handle : Handle) {inputDispatch : List OsslDispatch}
  (oldDispatch : Option (List ProviderFunction)) (oldContext : Option X301ProviderContext)
  (address : ℕ → Handle) {coreGetParams zalloc clearFree : Handle}

theorem osslProviderInit_of_admits
    (h : Admits build inputDispatch environment coreGetParams zalloc clearFree) :
    osslProviderInit build ⟨some handle, some inputDispatch, some oldDispatch, some oldContext⟩
        address environment =
      ⟨1, some (some (providerDispatch build)),
        some (some (startedContext handle inputDispatch (staticRustApi address) zalloc clearFree)),
        [.acquired .memory, .acquired .libctx, .acquired .lock]⟩ := by
  have hGate := (coreVersion_iff coreGetParams).mpr h.version
  simp only [osslProviderInit, shimInit, staticRustApi_isValid, readDispatch_eq, h.findsGetParams,
    h.findsZalloc, h.findsClearFree, hGate, Option.isNone_some, Bool.or_false, Bool.false_eq_true,
    if_false, Bool.not_true, ne_eq, not_true_eq_false]
  exact shimAcquire_of_acquires h.acquires

theorem osslProviderInit_of_not
    (h : ∀ coreGetParams zalloc clearFree,
      ¬Admits build inputDispatch environment coreGetParams zalloc clearFree) :
    ∃ trace, osslProviderInit build
        ⟨some handle, some inputDispatch, some oldDispatch, some oldContext⟩ address environment =
          .failed trace ∧ ∀ resource, ResourceEvent.ReleasedOnce trace resource := by
  simp only [osslProviderInit, shimInit, staticRustApi_isValid, readDispatch_eq, Option.isNone_some,
    Bool.or_false, Bool.false_eq_true, if_false, Bool.not_true]
  cases hGet : lastEntry inputDispatch .coreGetParams with
  | none => exact ⟨_, rfl, fun _ => Or.inl rfl⟩
  | some coreGetParams =>
    cases hZalloc : lastEntry inputDispatch .cryptoZalloc with
    | none => exact ⟨_, rfl, fun _ => Or.inl rfl⟩
    | some zalloc =>
      cases hFree : lastEntry inputDispatch .cryptoClearFree with
      | none => exact ⟨_, rfl, fun _ => Or.inl rfl⟩
      | some clearFree =>
        by_cases hGate : coreVersionIsSupported build false
            (some (environment.coreGetParams coreGetParams)) = some true
        · simp only [hGate, ne_eq, not_true_eq_false, if_false]
          apply shimAcquire_of_not
          intro hAcquires
          exact h coreGetParams zalloc clearFree
            ⟨hGet, hZalloc, hFree, (coreVersion_iff coreGetParams).mp hGate, hAcquires⟩
        · simp only [ne_eq, hGate, not_false_eq_true, if_true]
          exact ⟨_, rfl, fun _ => Or.inl rfl⟩

def InitArguments.HasNull (arguments : InitArguments) : Prop :=
  arguments.handle = none ∨ arguments.inputDispatch = none ∨ arguments.outputDispatch = none ∨
    arguments.providerContext = none

theorem InitArguments.hasNull_or_eq (arguments : InitArguments) :
    arguments.HasNull ∨ ∃ handle inputDispatch oldDispatch oldContext,
      arguments = ⟨some handle, some inputDispatch, some oldDispatch, some oldContext⟩ := by
  obtain ⟨handle, inputDispatch, outputDispatch, providerContext⟩ := arguments
  cases handle with
  | none => exact Or.inl (Or.inl rfl)
  | some handle =>
    cases inputDispatch with
    | none => exact Or.inl (Or.inr (Or.inl rfl))
    | some inputDispatch =>
      cases outputDispatch with
      | none => exact Or.inl (Or.inr (Or.inr (Or.inl rfl)))
      | some oldDispatch =>
        cases providerContext with
        | none => exact Or.inl (Or.inr (Or.inr (Or.inr rfl)))
        | some oldContext => exact Or.inr ⟨handle, inputDispatch, oldDispatch, oldContext, rfl⟩

theorem osslProviderInit_of_hasNull {arguments : InitArguments} (h : arguments.HasNull) :
    osslProviderInit build arguments address environment =
      ⟨0, arguments.outputDispatch, arguments.providerContext, []⟩ := by
  rw [osslProviderInit, if_pos]
  rcases h with h | h | h | h <;> simp [h]

/-- The entry point: it starts a provider exactly when the core's table, its version and the
allocations allow it, and otherwise clears both outputs and keeps nothing. -/
theorem osslProviderInit_exact (build : CoreBuild) (environment : InitEnvironment)
    (arguments : InitArguments) (address : ℕ → Handle) :
    (arguments.HasNull →
      osslProviderInit build arguments address environment =
        ⟨0, arguments.outputDispatch, arguments.providerContext, []⟩) ∧
    ∀ handle inputDispatch oldDispatch oldContext,
      arguments = ⟨some handle, some inputDispatch, some oldDispatch, some oldContext⟩ →
      (∀ coreGetParams zalloc clearFree,
        Admits build inputDispatch environment coreGetParams zalloc clearFree →
        osslProviderInit build arguments address environment =
          ⟨1, some (some (providerDispatch build)), some (some
              (startedContext handle inputDispatch (staticRustApi address) zalloc clearFree)),
            [.acquired .memory, .acquired .libctx, .acquired .lock]⟩) ∧
      ((∀ coreGetParams zalloc clearFree,
          ¬Admits build inputDispatch environment coreGetParams zalloc clearFree) →
        ∃ trace, osslProviderInit build arguments address environment = .failed trace ∧
          ∀ resource, ResourceEvent.ReleasedOnce trace resource) := by
  constructor
  · exact osslProviderInit_of_hasNull address
  · rintro handle inputDispatch oldDispatch oldContext rfl
    exact ⟨fun _ _ _ => osslProviderInit_of_admits handle oldDispatch oldContext address,
      osslProviderInit_of_not handle oldDispatch oldContext address⟩

end Outcomes

section Lifetime

open ResourceEvent

variable {τ : Type} [DecidableEq τ]

/-- Everything that a provider takes and gives back, from its start to its teardown. -/
def lifetimeTrace (outcome : InitOutcome) (provider : X301ProviderContext) (world : DrbgWorld τ) :
    ProviderTrace :=
  outcome.trace ++ world.trace.map (map .generator) ++ providerTeardown (some provider) world

theorem generator_injective : Function.Injective ProviderResource.generator := fun _ _ h =>
  ProviderResource.generator.inj h

/-- A provider's own resources around an account of the generator's. -/
theorem releasedOnce_around {trace : DrbgTrace} (h : ∀ resource, ReleasedOnce trace resource)
    (resource : ProviderResource) :
    ReleasedOnce ([.acquired .memory, .acquired .libctx, .acquired .lock] ++
      trace.map (map .generator) ++ [.released .lock, .released .libctx, .released .memory])
        resource := by
  rw [ReleasedOnce, ← about, about_append, about_append]
  cases resource with
  | generator inner =>
    have hInner := h inner
    rw [ReleasedOnce, ← about] at hInner
    have hBefore : about ([.acquired .memory, .acquired .libctx, .acquired .lock] : ProviderTrace)
        (.generator inner) = [] := rfl
    have hAfter : about ([.released .lock, .released .libctx, .released .memory] : ProviderTrace)
        (.generator inner) = [] := rfl
    rw [about_map generator_injective, hBefore, hAfter, List.nil_append, List.append_nil]
    rcases hInner with hNone | hOnce
    · rw [hNone]
      exact Or.inl rfl
    · rw [hOnce]
      exact Or.inr rfl
  | memory =>
    rw [about_map_of_forall_ne (by simp) trace]
    exact Or.inr rfl
  | libctx =>
    rw [about_map_of_forall_ne (by simp) trace]
    exact Or.inr rfl
  | lock =>
    rw [about_map_of_forall_ne (by simp) trace]
    exact Or.inr rfl

omit [DecidableEq τ] in
theorem lifetimeTrace_started {build : CoreBuild} {environment : InitEnvironment}
    {inputDispatch : List OsslDispatch} {coreGetParams zalloc clearFree : Handle} (handle : Handle)
    (oldDispatch : Option (List ProviderFunction)) (oldContext : Option X301ProviderContext)
    (address : ℕ → Handle)
    (h : Admits build inputDispatch environment coreGetParams zalloc clearFree)
    (world : DrbgWorld τ) :
    lifetimeTrace (osslProviderInit build
        ⟨some handle, some inputDispatch, some oldDispatch, some oldContext⟩ address environment)
        (startedContext handle inputDispatch (staticRustApi address) zalloc clearFree) world =
      [.acquired .memory, .acquired .libctx, .acquired .lock] ++
        world.teardown.trace.map (map .generator) ++
          [.released .lock, .released .libctx, .released .memory] := by
  rw [lifetimeTrace, osslProviderInit_of_admits handle oldDispatch oldContext address h,
    DrbgWorld.teardown, List.map_append]
  simp only [providerTeardown, startedContext, Option.isSome_some, if_true, List.append_assoc]
  rfl

/-- From the start to the teardown, whatever the core and libcrypto answer and however the calls
of the threads interleave: a start that fails keeps nothing, and a provider that started has a
library context and a lock for all its calls; torn down between calls, it gives back everything
exactly once, the generator before the lock, then the library context, and its memory last. -/
theorem lifetime_settled (build : CoreBuild) (environment : InitEnvironment)
    (arguments : InitArguments) (address : ℕ → Handle) (schedule : List (τ × DrbgEnvironment)) :
    let outcome := osslProviderInit build arguments address environment
    (outcome.status = 0 ∧ ∀ resource, ReleasedOnce outcome.trace resource) ∨
      ∃ provider, outcome.status = 1 ∧ outcome.providerContext = some (some provider) ∧
        outcome.outputDispatch = some (some (providerDispatch build)) ∧
        provider.hasLibctx = true ∧ provider.hasLock = true ∧
        let world := (DrbgWorld.initial provider.hasLibctx provider.hasLock).run schedule
        (∀ t, world.calls t = .idle) →
          (∀ resource, ReleasedOnce (lifetimeTrace outcome provider world) resource) ∧
          ∃ generator, lifetimeTrace outcome provider world =
            [.acquired .memory, .acquired .libctx, .acquired .lock] ++ generator ++
              [.released .lock, .released .libctx, .released .memory] := by
  intro outcome
  rcases arguments.hasNull_or_eq with hNull | ⟨handle, inputDispatch, oldDispatch, oldContext, rfl⟩
  · have hOutcome : outcome = _ := osslProviderInit_of_hasNull address hNull
    rw [hOutcome]
    exact Or.inl ⟨rfl, fun _ => Or.inl rfl⟩
  by_cases hAdmits : ∃ coreGetParams zalloc clearFree,
      Admits build inputDispatch environment coreGetParams zalloc clearFree
  · obtain ⟨coreGetParams, zalloc, clearFree, h⟩ := hAdmits
    have hOutcome : outcome = _ :=
      osslProviderInit_of_admits handle oldDispatch oldContext address h
    refine Or.inr ⟨startedContext handle inputDispatch (staticRustApi address) zalloc clearFree, ?_⟩
    have hInvariant := (@DrbgWorld.invariant_initial τ true true).run schedule
    have hTrace :
        lifetimeTrace outcome _ ((DrbgWorld.initial true true : DrbgWorld τ).run schedule) = _ :=
      lifetimeTrace_started handle oldDispatch oldContext address h _
    refine ⟨congrArg InitOutcome.status hOutcome, congrArg InitOutcome.providerContext hOutcome,
      congrArg InitOutcome.outputDispatch hOutcome, rfl, rfl, fun hIdle => ⟨?_, _, hTrace⟩⟩
    intro resource
    have hSettled := releasedOnce_around (hInvariant.teardown hIdle) resource
    rw [← hTrace] at hSettled
    exact hSettled
  · have hNone : ∀ coreGetParams zalloc clearFree,
        ¬Admits build inputDispatch environment coreGetParams zalloc clearFree :=
      fun _ _ _ h => hAdmits ⟨_, _, _, h⟩
    obtain ⟨trace, hFailed, hSettled⟩ :=
      osslProviderInit_of_not handle oldDispatch oldContext address hNone
    have hOutcome : outcome = _ := hFailed
    rw [hOutcome]
    exact Or.inl ⟨rfl, hSettled⟩

end Lifetime

end X301Provider
