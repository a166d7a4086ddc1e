import X301Provider.Hybrid.Atomicity
import X301Provider.Hybrid.KeyStates
import X301Provider.Hybrid.PublicEncoding

/-!
# The hybrid KEM round-trips

Each half of a ciphertext is handled by its own component. The client's and the
server's X301 halves agree because both compute the shared secret of the two
private values, one of them fresh.
-/

namespace X301Provider

open Limbs X301 ByteRegion Cleanup KemFrame

variable {σ Key Exchange Pkey Context Caller : Type}

section Bodies

variable {rust : RustApi σ Key Exchange} {mlkem : MlKemApi σ Pkey Context}
  {provider : ProviderContext} {key : HybridKey Key Pkey} {s : σ}

theorem runToCleanup_eq_one {body : Cleanup (KemFrame σ Key Exchange Context Caller) Unit}
    {caller : Caller} (h : (runToCleanup rust mlkem body caller s).status = 1) :
    ∃ next, body (.start s caller) = (some (), next) ∧
      (runToCleanup rust mlkem body caller s).caller = next.caller := by
  rcases hRun : body (.start s caller) with ⟨_ | _, next⟩
  · simp only [runToCleanup, hRun] at h
    cases h
  · refine ⟨next, rfl, ?_⟩
    simp only [runToCleanup, hRun, cleanup_caller]

theorem runToCleanup_of_some {body : Cleanup (KemFrame σ Key Exchange Context Caller) Unit}
    {caller : Caller} {next : KemFrame σ Key Exchange Context Caller}
    (h : body (.start s caller) = (some (), next)) :
    (runToCleanup rust mlkem body caller s).status = 1 ∧
      (runToCleanup rust mlkem body caller s).caller = next.caller := by
  simp only [runToCleanup, h, cleanup_caller]
  exact ⟨rfl, trivial⟩

theorem commit_caller {write : Bytes 70 → Caller} {u : Unit}
    {frame next : KemFrame σ Key Exchange Context Caller}
    (h : commit write frame = (some u, next)) : next.caller = write frame.temporarySecret := by
  rw [← (Prod.mk.inj h).2]

theorem temporaryCiphertext_eq (buffer : Bytes 1606) (mlkemCiphertext : Bytes 1568)
    (encoded : Bytes 38) :
    splice (splice buffer 0 mlkemCiphertext) 1568 encoded = concat mlkemCiphertext encoded :=
  @splice_splice 1568 38 buffer mlkemCiphertext encoded (by decide) (by decide)

theorem temporarySecret_eq (buffer : Bytes 70) (mlkemSecret : Bytes 32) (shared : Bytes 38) :
    splice (splice buffer 0 mlkemSecret) 32 shared = concat mlkemSecret shared :=
  @splice_splice 32 38 buffer mlkemSecret shared (by decide) (by decide)

theorem encapsulateBody_eq_some {ciphertext sharedSecret : List UInt8} {output : EncapsulateOutput}
    {next : KemFrame σ Key Exchange Context EncapsulateOutput}
    (h : encapsulateBody rust mlkem provider key ciphertext sharedSecret (.start s output) =
      (some (), next)) :
    ∃ mlkemCiphertext mlkemSecret encoded shared t,
      mlkemEncapsulate mlkem provider key.mlkem s = some (mlkemCiphertext, mlkemSecret) ∧
      ServerCalls rust provider key.x301 t encoded shared ∧
      next.caller = ⟨⟨some (memcpy ciphertext (concat mlkemCiphertext encoded)), some 1606⟩,
        ⟨some (memcpy sharedSecret (concat mlkemSecret shared)), some 70⟩⟩ := by
  obtain ⟨mlkemCiphertext, first, hFirst, h⟩ := bind_eq_some h
  obtain ⟨encoded, second, hSecond, h⟩ := bind_eq_some h
  obtain ⟨mlkemSecret, hMlkem, hFront⟩ := encapsulateMlkem_eq_some hFirst
  obtain ⟨shared, hCalls, hBack⟩ := encapsulateX301_eq_some hSecond
  refine ⟨mlkemCiphertext, mlkemSecret, encoded, shared, first.callees, hMlkem, hCalls, ?_⟩
  have hSecret : second.temporarySecret = concat mlkemSecret shared := by
    rw [hBack, hFront, temporarySecret_eq]
  rw [commit_caller h, temporaryCiphertext_eq, hSecret]

theorem encapsulateBody_of_halves {ciphertext sharedSecret : List UInt8}
    {output : EncapsulateOutput} {mlkemCiphertext : Bytes 1568} {mlkemSecret : Bytes 32}
    {encoded shared : Bytes 38}
    (hMlkem : mlkemEncapsulate mlkem provider key.mlkem s = some (mlkemCiphertext, mlkemSecret))
    (hCalls : ∀ t, ServerCalls rust provider key.x301 t encoded shared) :
    ∃ next, encapsulateBody rust mlkem provider key ciphertext sharedSecret
      (.start s output : KemFrame σ Key Exchange Context EncapsulateOutput) = (some (), next) := by
  obtain ⟨first, hFirst, -⟩ := @encapsulateMlkem_of_some _ Key Exchange _ _ _ _ _ _
    (.start s output) _ _ hMlkem
  obtain ⟨second, hSecond, -⟩ := encapsulateX301_of_calls (hCalls first.callees)
  exact ⟨_, (bind_of_some hFirst).trans (bind_of_some hSecond)⟩

theorem decapsulateBody_eq_some {c : Bytes 1606} {sharedSecret : List UInt8}
    {output : OutputBuffer} {next : KemFrame σ Key Exchange Context OutputBuffer}
    (h : decapsulateBody rust mlkem provider key c sharedSecret (.start s output) =
      (some (), next)) :
    ∃ secret shared t, mlkemDecapsulate mlkem provider key.mlkem (slice c 0 1568) s = some secret ∧
      ClientCalls rust key.x301 (slice c 1568 38) t shared ∧
      next.caller = ⟨some (memcpy sharedSecret (concat secret shared)), some 70⟩ := by
  obtain ⟨_, first, hFirst, h⟩ := bind_eq_some h
  obtain ⟨_, second, hSecond, h⟩ := bind_eq_some h
  obtain ⟨secret, hMlkem, hFront⟩ := decapsulateMlkem_eq_some hFirst
  obtain ⟨shared, hCalls, hBack⟩ := decapsulateX301_eq_some hSecond
  have hSecret : second.temporarySecret = concat secret shared := by
    rw [hBack, hFront, temporarySecret_eq]
  refine ⟨secret, shared, first.callees, hMlkem, hCalls, ?_⟩
  rw [commit_caller h, hSecret]

theorem decapsulateBody_of_halves {c : Bytes 1606} {sharedSecret : List UInt8}
    {output : OutputBuffer} {secret : Bytes 32} {shared : Bytes 38}
    (hMlkem : mlkemDecapsulate mlkem provider key.mlkem (slice c 0 1568) s = some secret)
    (hCalls : ∀ t, ClientCalls rust key.x301 (slice c 1568 38) t shared) :
    ∃ next, decapsulateBody rust mlkem provider key c sharedSecret
        (.start s output : KemFrame σ Key Exchange Context OutputBuffer) = (some (), next) ∧
      next.caller = ⟨some (memcpy sharedSecret (concat secret shared)), some 70⟩ := by
  obtain ⟨first, hFirst, hFront⟩ := @decapsulateMlkem_of_some _ Key Exchange _ _ _ _ _ _
    (.start s output) _ _ hMlkem
  obtain ⟨second, hSecond, hBack⟩ :=
    @decapsulateX301_of_calls _ _ _ _ _ _ provider _ _ _ first (hCalls first.callees)
  have hSecret : second.temporarySecret = concat secret shared := by
    rw [hBack, hFront, temporarySecret_eq]
  refine ⟨{ second with caller := ⟨some (memcpy sharedSecret second.temporarySecret), some 70⟩ },
    (bind_of_some hFirst).trans (bind_of_some hSecond), ?_⟩
  rw [hSecret]

end Bodies

section Decapsulation

variable [ModularInverse] {runtime : Runtime σ} {mlkem : MlKemApi σ Pkey Context}
  {provider : ProviderContext} {key : HybridKey X301Key Pkey} {own : X301Key} {secret : Bytes 38}
  {sharedSecret : List UInt8} {room : ℕ}

omit [ModularInverse] in
theorem hybridDecapsulate_of_room (rust : RustApi σ X301Key X301Exchange) (hRoom : 70 ≤ room)
    (c : Bytes 1606) (s : σ) :
    hybridDecapsulate rust mlkem (some ⟨some provider, some key, .kemDecapsulate⟩)
      ⟨some sharedSecret, some room⟩ (.bytes c.1) s =
      runToCleanup rust mlkem (decapsulateBody rust mlkem provider key c sharedSecret)
        ⟨some sharedSecret, some room⟩ s := by
  simp only [hybridDecapsulate, toArray_val, not_lt.mpr hRoom, if_false]

theorem hybridDecapsulate_eq_one_iff (hRuntime : runtime.NeverFails) (hX301 : key.x301 = some own)
    (hOwn : own.privateKey = some secret) (hRoom : 70 ≤ room) (c : Bytes 1606) (s : σ) :
    (hybridDecapsulate runtime.rustApi mlkem (some ⟨some provider, some key, .kemDecapsulate⟩)
      ⟨some sharedSecret, some room⟩ (.bytes c.1) s).status = 1 ↔
      ∃ mlkemSecret shared,
        mlkemDecapsulate mlkem provider key.mlkem (slice c 0 1568) s = some mlkemSecret ∧
        x301 secret.1 (slice c 1568 38).1 = .ok shared := by
  rw [hybridDecapsulate_of_room _ hRoom]
  constructor
  · intro h
    obtain ⟨next, hBody, -⟩ := runToCleanup_eq_one h
    obtain ⟨mlkemSecret, shared, t, hMlkem, hCalls, -⟩ := decapsulateBody_eq_some hBody
    rw [hX301] at hCalls
    exact ⟨mlkemSecret, shared, hMlkem, hCalls.agreed runtime hOwn⟩
  · rintro ⟨mlkemSecret, shared, hMlkem, hShared⟩
    have hCalls : ∀ t, ClientCalls runtime.rustApi key.x301 (slice c 1568 38) t shared := by
      rw [hX301]
      exact ClientCalls.of_ok hRuntime hOwn hShared
    obtain ⟨next, hBody, -⟩ := decapsulateBody_of_halves hMlkem hCalls
    exact (runToCleanup_of_some hBody).1

theorem hybridDecapsulate_secret (hRuntime : runtime.NeverFails) (hX301 : key.x301 = some own)
    (hOwn : own.privateKey = some secret) (hRoom : 70 ≤ room) {c : Bytes 1606} {s : σ}
    {mlkemSecret : Bytes 32} {shared : Bytes 38}
    (hMlkem : mlkemDecapsulate mlkem provider key.mlkem (slice c 0 1568) s = some mlkemSecret)
    (hShared : x301 secret.1 (slice c 1568 38).1 = .ok shared) :
    (hybridDecapsulate runtime.rustApi mlkem (some ⟨some provider, some key, .kemDecapsulate⟩)
      ⟨some sharedSecret, some room⟩ (.bytes c.1) s).caller =
      ⟨some (memcpy sharedSecret (concat mlkemSecret shared)), some 70⟩ := by
  have hCalls : ∀ t, ClientCalls runtime.rustApi key.x301 (slice c 1568 38) t shared := by
    rw [hX301]
    exact ClientCalls.of_ok hRuntime hOwn hShared
  obtain ⟨next, hBody, hCaller⟩ := decapsulateBody_of_halves hMlkem hCalls
  rw [hybridDecapsulate_of_room _ hRoom, (runToCleanup_of_some hBody).2, hCaller]

end Decapsulation

section Encapsulation

variable {rust : RustApi σ Key Exchange} {mlkem : MlKemApi σ Pkey Context}
  {provider : ProviderContext} {key : HybridKey Key Pkey} {s : σ}

theorem hybridEncapsulate_of_room {ciphertext sharedSecret : List UInt8} {c k : ℕ}
    (hCiphertext : 1606 ≤ c) (hSecret : 70 ≤ k) :
    hybridEncapsulate rust mlkem (some ⟨some provider, some key, .kemEncapsulate⟩)
      ⟨⟨some ciphertext, some c⟩, ⟨some sharedSecret, some k⟩⟩ s =
      runToCleanup rust mlkem (encapsulateBody rust mlkem provider key ciphertext sharedSecret)
        ⟨⟨some ciphertext, some c⟩, ⟨some sharedSecret, some k⟩⟩ s := by
  simp [hybridEncapsulate, not_lt.mpr hCiphertext, not_lt.mpr hSecret]

theorem hybridEncapsulate_eq_one {output : EncapsulateOutput} {ciphertext : List UInt8}
    (hMemory : output.ciphertext.memory = some ciphertext)
    (h : (hybridEncapsulate rust mlkem (some ⟨some provider, some key, .kemEncapsulate⟩) output
      s).status = 1) :
    ∃ sharedSecret mlkemCiphertext mlkemSecret encoded shared t,
      output.sharedSecret.memory = some sharedSecret ∧
      mlkemEncapsulate mlkem provider key.mlkem s = some (mlkemCiphertext, mlkemSecret) ∧
      ServerCalls rust provider key.x301 t encoded shared ∧
      (hybridEncapsulate rust mlkem (some ⟨some provider, some key, .kemEncapsulate⟩) output
        s).caller = ⟨⟨some (memcpy ciphertext (concat mlkemCiphertext encoded)), some 1606⟩,
          ⟨some (memcpy sharedSecret (concat mlkemSecret shared)), some 70⟩⟩ := by
  obtain ⟨⟨_, c⟩, ⟨sharedSecret, k⟩⟩ := output
  obtain rfl := hMemory
  have hAtomic := hybridEncapsulate_allOrNothing rust mlkem
    (some ⟨some provider, some key, .kemEncapsulate⟩)
    ⟨⟨some ciphertext, c⟩, ⟨sharedSecret, k⟩⟩ s
  obtain ⟨⟨-, hGiven⟩, -⟩ := hAtomic.succeeded h nofun
  obtain ⟨_, c, sharedSecret, k, ⟨⟩, hCiphertext, hSecret⟩ := hGiven
  rw [hybridEncapsulate_of_room hCiphertext hSecret] at h ⊢
  obtain ⟨next, hBody, hCaller⟩ := runToCleanup_eq_one h
  obtain ⟨mlkemCiphertext, mlkemSecret, encoded, shared, t, hMlkem, hCalls, hWritten⟩ :=
    encapsulateBody_eq_some hBody
  exact ⟨sharedSecret, mlkemCiphertext, mlkemSecret, encoded, shared, t, rfl, hMlkem, hCalls,
    hCaller.trans hWritten⟩

end Encapsulation

/-! ### Export, import and both operations -/

/-- ML-KEM decapsulates, with a key it generated, what was encapsulated to an import of the public
key that the generated key exports. -/
def MlKemApi.RoundTrips (mlkem : MlKemApi σ Pkey Context) : Prop :=
  ∀ own publicKey peer output s, mlkem.Generated own →
    (mlkemGetPublic mlkem (some own) output s).1 = (true, publicKey) →
    mlkem.Imported publicKey peer → ∀ peerProvider t ciphertext secret,
    mlkemEncapsulate mlkem peerProvider (some peer) t = some (ciphertext, secret) →
    ∀ provider u, mlkemDecapsulate mlkem provider (some own) ciphertext u = some secret

section Agreement

variable [ModularInverse] [Libcrypto] [ParamSetters] {mlkem : MlKemApi σ Pkey Context}
  (runtime : Runtime σ) {key : HybridKey X301Key Pkey} {encoded : Bytes 1606}

variable (mlkem) in
/-- Some query of the key was answered with these bytes. -/
def Exported (key : HybridKey X301Key Pkey) (encoded : Bytes 1606) : Prop :=
  ∃ params request region stack s written, Asks params request region ∧
    (hybridKeyGetParams runtime.rustApi mlkem (some key) (some params) stack s).1.value =
      (1, written ++ [answered request region encoded])

theorem ReadsAs.exported {runtime : Runtime σ} [Inhabited σ]
    {params : List OsslParam} {request : OsslParam} {region : List UInt8}
    (h : ReadsAs mlkem runtime key encoded) (hAsks : Asks params request region)
    (hInts : (setOptionalInts params hybridIntParams).1 = true) :
    Exported mlkem runtime key encoded :=
  ⟨params, request, region, .replicate 1606 0, default, _, hAsks,
    h params request region _ default hAsks hInts⟩
variable (mlkem) in
/-- The key is what some key became when these bytes were set on it. -/
def ImportedFrom (encoded : Bytes 1606) (key : HybridKey X301Key Pkey) : Prop :=
  ∃ old params s, Gives params encoded.1 ∧
    (hybridKeySetParams runtime.rustApi mlkem (some old) (some params) s).1.value = (1, some key)

omit [ModularInverse] [Libcrypto] [ParamSetters] in
theorem answered_injective {request : OsslParam} {region : List UInt8} {a b : Bytes 1606}
    (h : answered request region a = answered request region b) : a = b := by
  have hData := ByteInput.bytes.inj (congrArg OsslParam.data h)
  exact Subtype.ext (List.append_cancel_right hData)

theorem Exported.split {x301 : X301Key} {x301Public : Bytes 38} {pkey : Pkey}
    (h : Exported mlkem runtime key encoded) (hX301 : key.x301 = some x301)
    (hPublic : x301.publicKey = some x301Public) (hMlkem : key.mlkem = some pkey)
    (hState : key.state.atLeastPublic = true) :
    ∃ mlkemPublic output s, (mlkemGetPublic mlkem (some pkey) output s).1 = (true, mlkemPublic) ∧
      encoded = concat mlkemPublic x301Public := by
  obtain ⟨params, request, region, stack, s, written, hAsks, hValue⟩ := h
  obtain ⟨_ | provider, _, _, state⟩ := key
  · cases (Prod.mk.inj hValue).1
  · obtain rfl := hX301
    obtain rfl := hMlkem
    cases hInts : (setOptionalInts params hybridIntParams).1 with
    | false =>
      rcases hSet : setOptionalInts params hybridIntParams with ⟨set, ints⟩
      rw [hSet] at hInts
      obtain rfl := hInts
      simp [hybridKeyGetParams, hSet] at hValue
    | true =>
      rw [hybridKeyGetParams_eq runtime hState hPublic hAsks hInts] at hValue
      split_ifs at hValue with hRead
      · obtain ⟨-, hLists⟩ := Prod.mk.inj hValue
        obtain ⟨-, hLast⟩ := List.append_inj' hLists rfl
        refine ⟨_, slice stack 0 1568, s, Prod.ext hRead rfl, ?_⟩
        exact (answered_injective (List.cons.inj hLast).1).symm
      · cases (Prod.mk.inj hValue).1

omit [ParamSetters] in
theorem ImportedFrom.components (h : ImportedFrom mlkem runtime encoded key) :
    key.x301 = some ⟨none, some (canonicalForm (slice encoded 1568 38))⟩ ∧
      ∃ pkey, key.mlkem = some pkey ∧ mlkem.Imported (slice encoded 0 1568) pkey := by
  obtain ⟨old, params, s, hGives, hValue⟩ := h
  cases hProvider : old.provider with
  | none =>
    simp [hybridKeySetParams, hProvider] at hValue
  | some provider =>
    cases hRust : provider.hasRust with
    | false => simp [hybridKeySetParams, hProvider, hRust] at hValue
    | true =>
      by_cases hState : old.state = .keyEmpty
      · rw [hybridKeySetParams_gives runtime hProvider hRust hState hGives, toArray_val] at hValue
        rcases setPublicComponents_cases runtime.rustApi mlkem provider old encoded s with
          hSame | ⟨pkey, x301, t, u, hImported, hNew, hSet, hFilled⟩
        · rw [hSame] at hValue
          cases (Prod.mk.inj hValue).1
        · obtain rfl := runtime.keyNew_eq_some hNew
          rw [hFilled, runtime.keySetEncodedPublic_eq_one hSet] at hValue
          obtain ⟨-, hKey⟩ := Prod.mk.inj hValue
          rw [← Option.some.inj hKey]
          exact ⟨rfl, pkey, rfl, hImported⟩
      · simp [hybridKeySetParams, hProvider, hRust, hState] at hValue

theorem hybridEncapsulate_agrees {secret : Bytes 38} {pkey : Pkey} {peer : HybridKey X301Key Pkey}
    (hMlkem : mlkem.RoundTrips) (hGenerated : mlkem.Generated pkey)
    (hX301 : key.x301 = some ⟨some secret, some (publicOf secret)⟩) (hPkey : key.mlkem = some pkey)
    (hState : key.state.atLeastPublic = true) (hExported : Exported mlkem runtime key encoded)
    (hImported : ImportedFrom mlkem runtime encoded peer) {provider : ProviderContext}
    {output : EncapsulateOutput} {ciphertext : List UInt8} {t : σ}
    (hMemory : output.ciphertext.memory = some ciphertext)
    (h : (hybridEncapsulate runtime.rustApi mlkem (some ⟨some provider, some peer,
      .kemEncapsulate⟩) output t).status = 1) :
    ∃ (mlkemCiphertext : Bytes 1568) (mlkemSecret : Bytes 32) (server shared : Bytes 38)
      (sharedSecret : List UInt8),
      output.sharedSecret.memory = some sharedSecret ∧
      (hybridEncapsulate runtime.rustApi mlkem (some ⟨some provider, some peer,
        .kemEncapsulate⟩) output t).caller =
        ⟨⟨some (memcpy ciphertext (concat mlkemCiphertext (publicOf server))), some 1606⟩,
          ⟨some (memcpy sharedSecret (concat mlkemSecret shared)), some 70⟩⟩ ∧
      (∀ provider u, mlkemDecapsulate mlkem provider (some pkey) mlkemCiphertext u =
        some mlkemSecret) ∧
      x301 secret.1 (publicOf server).1 = .ok shared := by
  obtain ⟨mlkemPublic, read, s, hRead, rfl⟩ := hExported.split runtime hX301 rfl hPkey hState
  obtain ⟨hPeerX301, peerPkey, hPeerPkey, hPeerImported⟩ := hImported.components
  have hHead : slice (concat mlkemPublic (publicOf secret)) 0 1568 = mlkemPublic :=
    slice_concat_left mlkemPublic (publicOf secret) (by decide)
  have hTail : slice (concat mlkemPublic (publicOf secret)) 1568 38 = publicOf secret :=
    slice_concat_right mlkemPublic (publicOf secret) (by decide)
  rw [hHead] at hPeerImported
  rw [hTail, canonicalForm_publicOf] at hPeerX301
  obtain ⟨sharedSecret, mlkemCiphertext, mlkemSecret, share, shared, v, hBuffer, hEncapsulated,
    hCalls, hCaller⟩ := hybridEncapsulate_eq_one hMemory h
  rw [hPeerX301] at hCalls
  rw [hPeerPkey] at hEncapsulated
  obtain ⟨server, rfl, hServer⟩ := hCalls.agreed runtime rfl
  obtain ⟨agreed, hOurs, hTheirs⟩ := sharedSecret_publicOf_comm server secret
  rw [hServer] at hOurs
  obtain rfl := Except.ok.inj hOurs
  refine ⟨mlkemCiphertext, mlkemSecret, server, shared, sharedSecret, hBuffer, hCaller, ?_, hTheirs⟩
  exact hMlkem pkey mlkemPublic peerPkey read s hGenerated hRead hPeerImported provider t
    mlkemCiphertext mlkemSecret hEncapsulated

end Agreement

/-! ### Two parties with a transparent KEM -/

namespace MlKemApi

theorem transparent_encapsulate (provider : ProviderContext) (pkey : Bytes 1568) :
    mlkemEncapsulate transparent provider (some pkey) () =
      some (splice (.replicate 1568 0) 0 (.replicate 32 1 : Bytes 32), .replicate 32 1) := by
  have hStatus : ¬(1 : ℤ) ≤ 0 := by decide
  simp only [mlkemEncapsulate, transparent, hStatus, if_false]
  exact if_pos ⟨Int.one_pos, trivial, trivial⟩

theorem transparent_decapsulate (provider : ProviderContext) (pkey ciphertext : Bytes 1568) :
    mlkemDecapsulate transparent provider (some pkey) ciphertext () =
      some (slice ciphertext 0 32) := by
  have hStatus : ¬(1 : ℤ) ≤ 0 := by decide
  simp only [mlkemDecapsulate, transparent, hStatus, if_false]
  exact if_pos ⟨Int.one_pos, trivial⟩

theorem transparent_roundTrips : transparent.RoundTrips := by
  rintro own publicKey peer output s - - - peerProvider t ciphertext secret h provider u
  rw [transparent_encapsulate] at h
  obtain ⟨rfl, rfl⟩ := Prod.mk.inj (Option.some.inj h)
  rw [transparent_decapsulate, slice_splice_front]

theorem transparent_encodes (pkey : Bytes 1568) : transparent.Encodes pkey pkey := fun _ _ => rfl

end MlKemApi

def generatedKey (provider : ProviderContext) (secret : Bytes 38) (pkey : Bytes 1568) :
    HybridKey X301Key (Bytes 1568) :=
  ⟨some provider, some ⟨some secret, some (publicOf secret)⟩, some pkey, .keyPrivate⟩

section Parties

variable [ModularInverse] {provider : ProviderContext} {secret : Bytes 38} {pkey : Bytes 1568}

theorem hybridGen_steady (hProvider : provider.Initialized) (hZalloc : provider.hasZalloc = true) :
    (hybridGen Runtime.steady.rustApi .transparent (some ⟨some provider, true⟩) true ()).1 =
      ⟨some (generatedKey provider (.replicate 38 1) (.replicate 1568 0)), []⟩ := by
  have hRandom : ∀ s, (Runtime.steady.fillRandom provider s).1 = (1, .replicate 38 1) :=
    fun _ => rfl
  obtain ⟨t, hRaw⟩ :=
    Runtime.steady_neverFails.generateRawKey hProvider.hasRust hProvider.hasLibctx hRandom ()
  have hNew : (hybridKeyNew (some provider) true :
      Reported (Option (HybridKey X301Key (Bytes 1568)))) =
      ⟨some ⟨some provider, none, none, .keyEmpty⟩, []⟩ := by
    simp [hybridKeyNew, hybridAllocates, ProviderContext.allocates, hZalloc]
  simp only [hybridGen, hNew, hRaw]
  rfl

theorem run_gen_steady [Libcrypto] (hProvider : provider.Initialized)
    (hZalloc : provider.hasZalloc = true) :
    ((HybridStore.start ()).run Runtime.steady .transparent
      [.gen (some ⟨some provider, true⟩) true]).keys.get 0 =
      some (generatedKey provider (.replicate 38 1) (.replicate 1568 0)) := by
  rcases hGen : hybridGen Runtime.steady.rustApi .transparent (some ⟨some provider, true⟩) true
    (HybridStore.start () : HybridStore Unit (Bytes 1568)).callees with ⟨generated, t⟩
  have hGenerated := hybridGen_steady hProvider hZalloc
  obtain rfl := (congrArg Prod.fst hGen).symm.trans hGenerated
  simp only [HybridStore.run, List.foldl_cons, List.foldl_nil, HybridStore.call, hGen]
  exact ObjectStore.get_insert_next

theorem exported_generatedKey [ParamSetters] :
    @Exported Unit (Bytes 1568) (Bytes 1568) _ .firstMatch _ .transparent Runtime.steady
      (generatedKey provider secret pkey) (concat pkey (publicOf secret)) := by
  have hReads := @readsAs_of_encodes _ _ _ _ provider pkey _ .firstMatch _ Runtime.steady
    ⟨some secret, some (publicOf secret)⟩ .keyPrivate (publicOf secret) pkey rfl rfl
    (MlKemApi.transparent_encodes pkey)
  have hRoom : 1606 ≤ (List.replicate 1606 (0 : UInt8)).length := List.length_replicate.ge
  exact @ReadsAs.exported _ _ _ _ .firstMatch _ _ _ _ _ _ _ _ _ hReads (asks_encodingParams hRoom)
    (congrArg Prod.fst (setOptionalInts_encodingParams _))

theorem hybridEncapsulate_steady {peer : HybridKey X301Key (Bytes 1568)}
    (hProvider : provider.Initialized) (hPkey : peer.mlkem = some pkey)
    (hX301 : peer.x301 = some ⟨none, some (publicOf secret)⟩)
    (ciphertext sharedSecret : List UInt8) :
    (hybridEncapsulate Runtime.steady.rustApi .transparent (some ⟨some provider, some peer,
      .kemEncapsulate⟩) ⟨⟨some ciphertext, some 1606⟩, ⟨some sharedSecret, some 70⟩⟩ ()).status =
      1 := by
  have hRandom : ∀ s, (Runtime.steady.fillRandom provider s).1 = (1, .replicate 38 1) :=
    fun _ => rfl
  obtain ⟨shared, hShared, -⟩ := sharedSecret_publicOf_comm (.replicate 38 1) secret
  have hCalls : ∀ t, ServerCalls Runtime.steady.rustApi provider peer.x301 t
      (publicOf (.replicate 38 1)) shared := by
    rw [hX301]
    exact ServerCalls.of_random Runtime.steady_neverFails hProvider.hasRust hProvider.hasLibctx
      hRandom rfl hShared
  have hMlkem := MlKemApi.transparent_encapsulate provider pkey
  rw [← hPkey] at hMlkem
  obtain ⟨next, hBody⟩ := encapsulateBody_of_halves hMlkem hCalls
  rw [hybridEncapsulate_of_room le_rfl le_rfl]
  exact (runToCleanup_of_some hBody).1

theorem importedFrom_steady [ParamSetters] (hAccepts : firstCoefficientReduced pkey) :
    ∃ peer, @ImportedFrom Unit (Bytes 1568) (Bytes 1568) _ .firstMatch .transparent Runtime.steady
      (concat pkey (publicOf secret)) peer := by
  have hHead : slice (concat pkey (publicOf secret)) 0 1568 = pkey :=
    slice_concat_left pkey (publicOf secret) (by decide)
  have hSlice := hAccepts
  rw [← hHead] at hSlice
  have hGives := gives_encodingParams (concat pkey (publicOf secret)).1
  obtain ⟨peer, hSet, -⟩ := @hybridKeySetParams_accepted _ _ _ _ _ _ _ .firstMatch _ _ _
    (concat pkey (publicOf secret)) Runtime.steady_neverFails MlKemApi.transparent_faithful _
    freshKey_fresh hGives hSlice ()
  exact ⟨peer, freshKey, encodingParams (concat pkey (publicOf secret)).1, (), hGives, hSet⟩

end Parties

section Agreement

variable [ModularInverse] [Libcrypto] [ParamSetters] {mlkem : MlKemApi σ Pkey Context}
  (runtime : Runtime σ) {key : HybridKey X301Key Pkey}

/-- The hybrid KEM is component-wise and round-trips. -/
theorem hybridKem_round_trip {history peerRuntime : Runtime σ} (hRuntime : runtime.NeverFails)
    (hMlkem : mlkem.RoundTrips) {calls : List HybridCall} {s : σ} {handle : Handle}
    (hGet : ((HybridStore.start s).run history mlkem calls).keys.get handle = some key)
    (hPrivate : key.state = .keyPrivate) :
    ∃ own secret, key.x301 = some own ∧ own.privateKey = some secret ∧
      (∀ provider sharedSecret room (c : Bytes 1606) t, 70 ≤ room →
        ((hybridDecapsulate runtime.rustApi mlkem (some ⟨some provider, some key,
            .kemDecapsulate⟩) ⟨some sharedSecret, some room⟩ (.bytes c.1) t).status = 1 ↔
          ∃ mlkemSecret shared,
            mlkemDecapsulate mlkem provider key.mlkem (slice c 0 1568) t = some mlkemSecret ∧
            x301 secret.1 (slice c 1568 38).1 = .ok shared) ∧
        ∀ mlkemSecret shared,
          mlkemDecapsulate mlkem provider key.mlkem (slice c 0 1568) t = some mlkemSecret →
          x301 secret.1 (slice c 1568 38).1 = .ok shared →
          (hybridDecapsulate runtime.rustApi mlkem (some ⟨some provider, some key,
            .kemDecapsulate⟩) ⟨some sharedSecret, some room⟩ (.bytes c.1) t).caller =
            ⟨some (memcpy sharedSecret (concat mlkemSecret shared)), some 70⟩) ∧
      ∀ encoded peer, Exported mlkem peerRuntime key encoded →
        ImportedFrom mlkem peerRuntime encoded peer →
        ∀ peerProvider output ciphertext t, output.ciphertext.memory = some ciphertext →
          (hybridEncapsulate peerRuntime.rustApi mlkem (some ⟨some peerProvider, some peer,
            .kemEncapsulate⟩) output t).status = 1 →
          ∃ (c : Bytes 1606) (ss : Bytes 70) (sharedSecret : List UInt8),
            output.sharedSecret.memory = some sharedSecret ∧
            (hybridEncapsulate peerRuntime.rustApi mlkem (some ⟨some peerProvider, some peer,
              .kemEncapsulate⟩) output t).caller =
              ⟨⟨some (memcpy ciphertext c), some 1606⟩, ⟨some (memcpy sharedSecret ss), some 70⟩⟩ ∧
            bytesValue (slice c 1568 38).1 < P ∧
            ∀ provider buffer room u, 70 ≤ room →
              (hybridDecapsulate runtime.rustApi mlkem (some ⟨some provider, some key,
                .kemDecapsulate⟩) ⟨some buffer, some room⟩ (.bytes c.1) u).status = 1 ∧
              (hybridDecapsulate runtime.rustApi mlkem (some ⟨some provider, some key,
                .kemDecapsulate⟩) ⟨some buffer, some room⟩ (.bytes c.1) u).caller =
                ⟨some (memcpy buffer ss), some 70⟩ := by
  have hSound := (HybridStore.sound_start mlkem s).run history mlkem calls
  obtain ⟨secret, pkey, hX301, hPkey, hGenerated⟩ :=
    (hSound.keys handle key hGet).of_private hPrivate
  refine ⟨_, secret, hX301, rfl, ?_, ?_⟩
  · intro provider sharedSecret room c t hRoom
    exact ⟨hybridDecapsulate_eq_one_iff hRuntime hX301 rfl hRoom c t,
      fun mlkemSecret shared => hybridDecapsulate_secret hRuntime hX301 rfl hRoom⟩
  · intro encoded peer hExported hImported peerProvider output ciphertext t hMemory h
    have hState : key.state.atLeastPublic = true := by
      rw [hPrivate]
      rfl
    obtain ⟨mlkemCiphertext, mlkemSecret, server, shared, sharedSecret, hBuffer, hCaller,
      hDecapsulated, hShared⟩ := hybridEncapsulate_agrees peerRuntime hMlkem hGenerated hX301 hPkey
        hState hExported hImported hMemory h
    have hHead : slice (concat mlkemCiphertext (publicOf server)) 0 1568 = mlkemCiphertext :=
      slice_concat_left mlkemCiphertext (publicOf server) (by decide)
    have hTail : slice (concat mlkemCiphertext (publicOf server)) 1568 38 = publicOf server :=
      slice_concat_right mlkemCiphertext (publicOf server) (by decide)
    refine ⟨_, _, sharedSecret, hBuffer, hCaller, ?_, ?_⟩
    · rw [hTail]
      exact bytesValue_publicOf_lt server
    · intro provider buffer room u hRoom
      have hMlkemHalf : mlkemDecapsulate mlkem provider key.mlkem
          (slice (concat mlkemCiphertext (publicOf server)) 0 1568) u = some mlkemSecret := by
        rw [hPkey, hHead]
        exact hDecapsulated provider u
      have hX301Half : x301 secret.1
          (slice (concat mlkemCiphertext (publicOf server)) 1568 38).1 = .ok shared := by
        rw [hTail]
        exact hShared
      constructor
      · exact (hybridDecapsulate_eq_one_iff hRuntime hX301 rfl hRoom _ u).mpr
          ⟨mlkemSecret, shared, hMlkemHalf, hX301Half⟩
      · exact hybridDecapsulate_secret hRuntime hX301 rfl hRoom hMlkemHalf hX301Half

end Agreement

theorem hybridKem_round_trip_generated :
    letI := ModularInverse.zeroAtZero
    letI := Libcrypto.firstMatch
    letI := ParamSetters.inPlace
    ∃ (peer : HybridKey X301Key (Bytes 1568)) (c : Bytes 1606) (ss : Bytes 70),
      ImportedFrom .transparent Runtime.steady
        (concat (.replicate 1568 0 : Bytes 1568) (publicOf (.replicate 38 1))) peer ∧
      (hybridEncapsulate Runtime.steady.rustApi .transparent (some ⟨freshKey.provider, some peer,
        .kemEncapsulate⟩) ⟨⟨some (.replicate 1606 7), some 1606⟩, ⟨some (.replicate 70 7),
        some 70⟩⟩ ()).status = 1 ∧
      (hybridEncapsulate Runtime.steady.rustApi .transparent (some ⟨freshKey.provider, some peer,
        .kemEncapsulate⟩) ⟨⟨some (.replicate 1606 7), some 1606⟩, ⟨some (.replicate 70 7),
        some 70⟩⟩ ()).caller = ⟨⟨some c.1, some 1606⟩, ⟨some ss.1, some 70⟩⟩ ∧
      (hybridDecapsulate Runtime.steady.rustApi .transparent (some ⟨freshKey.provider,
        some (generatedKey ⟨0, true, true, true, true⟩ (.replicate 38 1) (.replicate 1568 0)),
        .kemDecapsulate⟩) ⟨some (.replicate 70 9), some 70⟩ (.bytes c.1) ()).status = 1 ∧
      (hybridDecapsulate Runtime.steady.rustApi .transparent (some ⟨freshKey.provider,
        some (generatedKey ⟨0, true, true, true, true⟩ (.replicate 38 1) (.replicate 1568 0)),
        .kemDecapsulate⟩) ⟨some (.replicate 70 9), some 70⟩ (.bytes c.1) ()).caller =
        ⟨some ss.1, some 70⟩ := by
  have hProvider := freshKey_fresh.initialized
  have hGet := @run_gen_steady .zeroAtZero _ .firstMatch hProvider rfl
  obtain ⟨own, secret, -, -, -, hRound⟩ := @hybridKem_round_trip _ _ _ .zeroAtZero .firstMatch
    .inPlace _ Runtime.steady _ _ Runtime.steady Runtime.steady_neverFails
    MlKemApi.transparent_roundTrips _ _ _ hGet rfl
  obtain ⟨peer, hImported⟩ := @importedFrom_steady .zeroAtZero (.replicate 38 1) _ .inPlace
    firstCoefficientReduced_zeros
  obtain ⟨hX301, pkey, hPkey, -⟩ := @ImportedFrom.components _ _ _ .zeroAtZero .firstMatch _ _ _ _
    hImported
  have hTail : slice (concat (.replicate 1568 0 : Bytes 1568) (publicOf (.replicate 38 1)))
      1568 38 = publicOf (.replicate 38 1) :=
    slice_concat_right (.replicate 1568 0 : Bytes 1568) (publicOf (.replicate 38 1)) (by decide)
  rw [hTail, canonicalForm_publicOf] at hX301
  have hStatus := @hybridEncapsulate_steady .zeroAtZero _ _ _ _ hProvider hPkey hX301
    (.replicate 1606 7) (.replicate 70 7)
  have hExported := @exported_generatedKey .zeroAtZero ⟨0, true, true, true, true⟩
    (.replicate 38 1) (.replicate 1568 0) .inPlace
  obtain ⟨c, ss, sharedSecret, hBuffer, hCaller, -, hBack⟩ :=
    hRound _ peer hExported hImported _ _ _ () rfl hStatus
  obtain rfl := Option.some.inj hBuffer
  obtain ⟨hOurs, hOurCaller⟩ := hBack ⟨0, true, true, true, true⟩ (.replicate 70 9) 70 () le_rfl
  rw [memcpy_whole c List.length_replicate, memcpy_whole ss List.length_replicate] at hCaller
  rw [memcpy_whole ss List.length_replicate] at hOurCaller
  exact ⟨peer, c, ss, hImported, hStatus, hCaller, hOurs, hOurCaller⟩

end X301Provider
