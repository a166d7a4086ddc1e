import X301Provider.Hybrid.KeyInvariant

/-!
# The two halves of a KEM operation

What the ML-KEM half computes is a sequence of EVP calls. What the X301 half
computes, when nothing fails for lack of memory, is the ladder on the peer's
coordinate.
-/

namespace X301Provider

open Limbs X301 ByteRegion Cleanup KemFrame

variable {σ Key Exchange Pkey Context Caller : Type}

namespace KemFrame

variable {α : Type} {condition : Bool} {errors : List ProviderError}
  {frame : KemFrame σ Key Exchange Context Caller}

theorem requireOrRaise_apply : requireOrRaise condition errors frame =
    if condition then (some (), frame)
    else (none, { frame with errors := frame.errors ++ errors }) := by
  cases condition with
  | false => rfl
  | true =>
    exact congrArg (fun kept => (some (), { frame with errors := kept }))
      (List.append_nil frame.errors)

theorem requireOrRaise_bind
    (rest : Unit → Cleanup (KemFrame σ Key Exchange Context Caller) α) :
    (requireOrRaise condition errors >>= rest) frame =
      if condition then rest () frame
      else (none, { frame with errors := frame.errors ++ errors }) := by
  rw [bind_apply, requireOrRaise_apply]
  cases condition with
  | false => rfl
  | true => rfl

end KemFrame

section MlKem

variable (mlkem : MlKemApi σ Pkey Context)

/-- A ciphertext and secret of the right lengths, from a successful sequence of EVP calls. -/
def mlkemEncapsulate (provider : ProviderContext) (pkey : Option Pkey) (s : σ) :
    Option (Bytes 1568 × Bytes 32) :=
  match mlkem.contextNewFromPkey provider pkey s with
  | (none, _) => none
  | (some context, s) =>
    let (status, s) := mlkem.encapsulateInit context s
    if status ≤ 0 then none
    else
      let (result, _) := mlkem.encapsulate context (.replicate 1568 0) 1568 (.replicate 32 0) 32 s
      if 0 < result.status ∧ result.ciphertextLength = 1568 ∧ result.secretLength = 32 then
        some (result.ciphertext, result.secret)
      else none

/-- A secret of 32 bytes, from a successful sequence of EVP calls. -/
def mlkemDecapsulate (provider : ProviderContext) (pkey : Option Pkey) (ciphertext : Bytes 1568)
    (s : σ) : Option (Bytes 32) :=
  match mlkem.contextNewFromPkey provider pkey s with
  | (none, _) => none
  | (some context, s) =>
    let (status, s) := mlkem.decapsulateInit context s
    if status ≤ 0 then none
    else
      let (result, _) := mlkem.decapsulate context (.replicate 32 0) 32 ciphertext s
      if 0 < result.status ∧ result.secretLength = 32 then some result.secret else none

variable {mlkem} {provider : ProviderContext} {pkey : Option Pkey}
  {frame : KemFrame σ Key Exchange Context Caller}

theorem encapsulateMlkem_of_some {ciphertext : Bytes 1568} {secret : Bytes 32}
    (h : mlkemEncapsulate mlkem provider pkey frame.callees = some (ciphertext, secret)) :
    ∃ next, encapsulateMlkem mlkem provider pkey frame = (some ciphertext, next) ∧
      next.temporarySecret = splice frame.temporarySecret 0 secret := by
  rcases hContext : mlkem.contextNewFromPkey provider pkey frame.callees with ⟨_ | context, s⟩
  · simp only [mlkemEncapsulate, hContext] at h
    cases h
  · rcases hInit : mlkem.encapsulateInit context s with ⟨status, t⟩
    rcases hRun : mlkem.encapsulate context (.replicate 1568 0) 1568 (.replicate 32 0) 32 t with
      ⟨result, v⟩
    simp only [mlkemEncapsulate, hContext, hInit, hRun] at h
    split_ifs at h with hStatus hResult
    obtain ⟨rfl, rfl⟩ := Prod.mk.inj (Option.some.inj h)
    simp only [encapsulateMlkem, acquireMlkemContext, callee, storeSecret, lift_bind, modify_bind,
      present_bind, require_bind, requireOrRaise_bind, pure_apply, hContext, hInit, hRun,
      not_le.mp hStatus, hResult.1, hResult.2.1, hResult.2.2, decide_true, beq_self_eq_true,
      Bool.and_self, if_true]
    exact ⟨_, rfl, rfl⟩

theorem encapsulateMlkem_eq_some {ciphertext : Bytes 1568}
    {next : KemFrame σ Key Exchange Context Caller}
    (h : encapsulateMlkem mlkem provider pkey frame = (some ciphertext, next)) :
    ∃ secret, mlkemEncapsulate mlkem provider pkey frame.callees = some (ciphertext, secret) ∧
      next.temporarySecret = splice frame.temporarySecret 0 secret := by
  rcases hContext : mlkem.contextNewFromPkey provider pkey frame.callees with ⟨_ | context, s⟩
  · simp only [encapsulateMlkem, acquireMlkemContext, lift_bind, present_bind, hContext] at h
    cases (Prod.mk.inj h).1
  · rcases hInit : mlkem.encapsulateInit context s with ⟨status, t⟩
    rcases hRun : mlkem.encapsulate context (.replicate 1568 0) 1568 (.replicate 32 0) 32 t with
      ⟨result, v⟩
    simp only [encapsulateMlkem, acquireMlkemContext, callee, storeSecret, lift_bind, modify_bind,
      present_bind, require_bind, requireOrRaise_bind, pure_apply, hContext, hInit, hRun,
      decide_eq_true_eq, Bool.and_eq_true, beq_iff_eq] at h
    split_ifs at h with hStatus hResult hLengths
    · obtain ⟨hCiphertext, rfl⟩ := Prod.mk.inj h
      obtain rfl := Option.some.inj hCiphertext
      refine ⟨result.secret, ?_, rfl⟩
      simp only [mlkemEncapsulate, hContext, hInit, hRun, not_le.mpr hStatus, if_false]
      exact if_pos ⟨hResult, hLengths⟩
    all_goals cases (Prod.mk.inj h).1

theorem decapsulateMlkem_of_some {ciphertext : Bytes 1568} {secret : Bytes 32}
    (h : mlkemDecapsulate mlkem provider pkey ciphertext frame.callees = some secret) :
    ∃ next, decapsulateMlkem mlkem provider pkey ciphertext frame = (some (), next) ∧
      next.temporarySecret = splice frame.temporarySecret 0 secret := by
  rcases hContext : mlkem.contextNewFromPkey provider pkey frame.callees with ⟨_ | context, s⟩
  · simp only [mlkemDecapsulate, hContext] at h
    cases h
  · rcases hInit : mlkem.decapsulateInit context s with ⟨status, t⟩
    rcases hRun : mlkem.decapsulate context (.replicate 32 0) 32 ciphertext t with ⟨result, v⟩
    simp only [mlkemDecapsulate, hContext, hInit, hRun] at h
    split_ifs at h with hStatus hResult
    obtain rfl := Option.some.inj h
    simp only [decapsulateMlkem, acquireMlkemContext, callee, storeSecret, lift_bind, modify_bind,
      present_bind, require_bind, requireOrRaise_apply, hContext, hInit, hRun, not_le.mp hStatus,
      hResult.1, hResult.2, decide_true, beq_self_eq_true, if_true]
    exact ⟨_, rfl, rfl⟩

theorem decapsulateMlkem_eq_some {ciphertext : Bytes 1568} {u : Unit}
    {next : KemFrame σ Key Exchange Context Caller}
    (h : decapsulateMlkem mlkem provider pkey ciphertext frame = (some u, next)) :
    ∃ secret, mlkemDecapsulate mlkem provider pkey ciphertext frame.callees = some secret ∧
      next.temporarySecret = splice frame.temporarySecret 0 secret := by
  rcases hContext : mlkem.contextNewFromPkey provider pkey frame.callees with ⟨_ | context, s⟩
  · simp only [decapsulateMlkem, acquireMlkemContext, lift_bind, present_bind, hContext] at h
    cases (Prod.mk.inj h).1
  · rcases hInit : mlkem.decapsulateInit context s with ⟨status, t⟩
    rcases hRun : mlkem.decapsulate context (.replicate 32 0) 32 ciphertext t with ⟨result, v⟩
    simp only [decapsulateMlkem, acquireMlkemContext, callee, storeSecret, lift_bind, modify_bind,
      present_bind, require_bind, requireOrRaise_apply, hContext, hInit, hRun, decide_eq_true_eq,
      beq_iff_eq] at h
    split_ifs at h with hStatus hResult hLength
    · obtain ⟨-, rfl⟩ := Prod.mk.inj h
      refine ⟨result.secret, ?_, rfl⟩
      simp only [mlkemDecapsulate, hContext, hInit, hRun, not_le.mpr hStatus, if_false]
      exact if_pos ⟨hResult, hLength⟩
    all_goals cases (Prod.mk.inj h).1

end MlKem

section X301

variable (rust : RustApi σ Key Exchange)

/-- The calls of the X301 half of `hybrid_encapsulate`, all successful. -/
def ServerCalls (provider : ProviderContext) (peer : Option Key) (s : σ)
    (encoded shared : Bytes 38) : Prop :=
  ∃ own exchange₀ exchange₁ exchange₂ s₁ s₂ s₃ s₄ s₅ s₆,
    generateRawKey rust provider s = (some own, s₁) ∧
    rust.exchangeNew s₁ = (some exchange₀, s₂) ∧
    rust.keyGetPublic (some own) (.replicate 38 0) s₂ = ((1, encoded), s₃) ∧
    rust.exchangeInit exchange₀ (some own) s₃ = ((1, exchange₁), s₄) ∧
    rust.exchangeSetPeer exchange₁ peer s₄ = ((1, exchange₂), s₅) ∧
    rust.exchangeDerive exchange₂ (.replicate 38 0) s₅ = ((1, shared), s₆)

/-- The calls of the X301 half of `hybrid_decapsulate`, all successful. -/
def ClientCalls (own : Option Key) (encoded : Bytes 38) (s : σ) (shared : Bytes 38) : Prop :=
  ∃ peer₀ peer₁ exchange₀ exchange₁ exchange₂ s₁ s₂ s₃ s₄ s₅ s₆,
    rust.keyNew s = (some peer₀, s₁) ∧
    rust.exchangeNew s₁ = (some exchange₀, s₂) ∧
    rust.keySetEncodedPublic peer₀ encoded s₂ = ((1, peer₁), s₃) ∧
    rust.exchangeInit exchange₀ own s₃ = ((1, exchange₁), s₄) ∧
    rust.exchangeSetPeer exchange₁ (some peer₁) s₄ = ((1, exchange₂), s₅) ∧
    rust.exchangeDerive exchange₂ (.replicate 38 0) s₅ = ((1, shared), s₆)

variable {rust} {provider : ProviderContext} {own peer : Option Key} {encoded shared : Bytes 38}
  {frame next : KemFrame σ Key Exchange Context Caller}

theorem encapsulateX301_of_calls (h : ServerCalls rust provider peer frame.callees encoded shared) :
    ∃ next, encapsulateX301 rust provider peer frame = (some encoded, next) ∧
      next.temporarySecret = splice frame.temporarySecret 32 shared := by
  obtain ⟨own, exchange₀, exchange₁, exchange₂, s₁, s₂, s₃, s₄, s₅, s₆, hKey, hNew, hPublic, hInit,
    hPeer, hDerive⟩ := h
  simp only [encapsulateX301, bind_apply, acquireX301, acquireExchange, callee, onExchange,
    storeSecret, requireOrRaise, report, lift_apply, modify_apply, present_apply, require_apply,
    pure_apply, hKey, hNew, hPublic, hInit, hPeer, hDerive, Option.isSome_some, beq_self_eq_true,
    if_true]
  exact ⟨_, rfl, rfl⟩

theorem encapsulateX301_eq_some
    (h : encapsulateX301 rust provider peer frame = (some encoded, next)) :
    ∃ shared, ServerCalls rust provider peer frame.callees encoded shared ∧
      next.temporarySecret = splice frame.temporarySecret 32 shared := by
  rcases hKey : generateRawKey rust provider frame.callees with ⟨_ | own, s₁⟩
  · rcases hNew : rust.exchangeNew s₁ with ⟨exchange₀, s₂⟩
    simp only [encapsulateX301, acquireX301, acquireExchange, report, lift_bind, modify_bind,
      present_bind, hKey] at h
    cases (Prod.mk.inj h).1
  · rcases hNew : rust.exchangeNew s₁ with ⟨_ | exchange₀, s₂⟩
    · simp only [encapsulateX301, acquireX301, acquireExchange, report, lift_bind, modify_bind,
        present_bind, requireOrRaise_bind, hKey, hNew] at h
      cases (Prod.mk.inj h).1
    · rcases hPublic : rust.keyGetPublic (some own) (.replicate 38 0) s₂ with ⟨⟨status₁, read⟩, s₃⟩
      rcases hInit : rust.exchangeInit exchange₀ (some own) s₃ with ⟨⟨status₂, exchange₁⟩, s₄⟩
      rcases hPeer : rust.exchangeSetPeer exchange₁ peer s₄ with ⟨⟨status₃, exchange₂⟩, s₅⟩
      rcases hDerive : rust.exchangeDerive exchange₂ (.replicate 38 0) s₅ with
        ⟨⟨status₄, shared⟩, s₆⟩
      simp only [encapsulateX301, acquireX301, acquireExchange, callee, onExchange, storeSecret,
        report, lift_bind, modify_bind, present_bind, requireOrRaise_bind, pure_apply, hKey, hNew,
        hPublic, hInit, hPeer, hDerive, Option.isSome_some, if_true] at h
      split_ifs at h with h₁ h₂ h₃ h₄
      · obtain ⟨hRead, rfl⟩ := Prod.mk.inj h
        obtain rfl := Option.some.inj hRead
        obtain rfl := beq_iff_eq.mp h₁
        obtain rfl := beq_iff_eq.mp h₂
        obtain rfl := beq_iff_eq.mp h₃
        obtain rfl := beq_iff_eq.mp h₄
        exact ⟨shared, ⟨own, exchange₀, exchange₁, exchange₂, s₁, s₂, s₃, s₄, s₅, s₆, hKey, hNew,
          hPublic, hInit, hPeer, hDerive⟩, rfl⟩
      all_goals cases (Prod.mk.inj h).1

theorem decapsulateX301_of_calls (h : ClientCalls rust own encoded frame.callees shared) :
    ∃ next, decapsulateX301 rust provider own encoded frame = (some (), next) ∧
      next.temporarySecret = splice frame.temporarySecret 32 shared := by
  obtain ⟨peer₀, peer₁, exchange₀, exchange₁, exchange₂, s₁, s₂, s₃, s₄, s₅, s₆, hKey, hNew, hSet,
    hInit, hPeer, hDerive⟩ := h
  simp only [decapsulateX301, acquireX301, acquireExchange, callee, onX301, onExchange,
    storeSecret, lift_bind, modify_bind, present_bind, requireOrRaise_bind, requireOrRaise_apply,
    hKey, hNew, hSet, hInit, hPeer, hDerive, Option.isSome_some, Bool.and_self,
    beq_self_eq_true, if_true]
  exact ⟨_, rfl, rfl⟩

theorem decapsulateX301_eq_some {u : Unit}
    (h : decapsulateX301 rust provider own encoded frame = (some u, next)) :
    ∃ shared, ClientCalls rust own encoded frame.callees shared ∧
      next.temporarySecret = splice frame.temporarySecret 32 shared := by
  rcases hKey : rust.keyNew frame.callees with ⟨_ | peer₀, s₁⟩
  · simp only [decapsulateX301, acquireX301, acquireExchange, lift_bind, requireOrRaise_bind, hKey,
      Option.isSome_none, Bool.false_and, Bool.false_eq_true, if_false] at h
    cases (Prod.mk.inj h).1
  · rcases hNew : rust.exchangeNew s₁ with ⟨_ | exchange₀, s₂⟩
    · simp only [decapsulateX301, acquireX301, acquireExchange, lift_bind, requireOrRaise_bind,
        hKey, hNew, Option.isSome_none, Bool.and_false, Bool.false_eq_true, if_false] at h
      cases (Prod.mk.inj h).1
    · rcases hSet : rust.keySetEncodedPublic peer₀ encoded s₂ with ⟨⟨status₁, peer₁⟩, s₃⟩
      rcases hInit : rust.exchangeInit exchange₀ own s₃ with ⟨⟨status₂, exchange₁⟩, s₄⟩
      rcases hPeer : rust.exchangeSetPeer exchange₁ (some peer₁) s₄ with
        ⟨⟨status₃, exchange₂⟩, s₅⟩
      rcases hDerive : rust.exchangeDerive exchange₂ (.replicate 38 0) s₅ with
        ⟨⟨status₄, shared⟩, s₆⟩
      simp only [decapsulateX301, acquireX301, acquireExchange, callee, onX301, onExchange,
        storeSecret, lift_bind, modify_bind, present_bind, requireOrRaise_bind,
        requireOrRaise_apply, hKey, hNew, hSet, hInit, hPeer, hDerive, Option.isSome_some,
        Bool.and_self, if_true] at h
      split_ifs at h with h₁ h₂ h₃ h₄
      · obtain ⟨-, rfl⟩ := Prod.mk.inj h
        obtain rfl := beq_iff_eq.mp h₁
        obtain rfl := beq_iff_eq.mp h₂
        obtain rfl := beq_iff_eq.mp h₃
        obtain rfl := beq_iff_eq.mp h₄
        exact ⟨shared, ⟨peer₀, peer₁, exchange₀, exchange₁, exchange₂, s₁, s₂, s₃, s₄, s₅, s₆, hKey,
          hNew, hSet, hInit, hPeer, hDerive⟩, rfl⟩
      all_goals cases (Prod.mk.inj h).1

end X301

/-! ### The calls on the objects of the crate -/

namespace Rust

theorem exchangeSetPeer_of_public (secret encoded : Bytes 38) (peerPublic : Option (Bytes 38))
    (own : Option (Bytes 38)) :
    Rust.exchangeSetPeer (some ⟨some secret, peerPublic⟩) (some ⟨own, some encoded⟩) =
      (1, some ⟨some secret, some encoded⟩) := by
  simp [Rust.exchangeSetPeer, validatePublicEncoding_eq]

variable [ModularInverse]

theorem keySetEncodedPublic_fresh (encoded : Bytes 38) :
    Rust.keySetEncodedPublic (some ⟨none, none⟩) (.bytes encoded.1) =
      (1, some ⟨none, some (canonicalForm encoded)⟩) := by
  simp [Rust.keySetEncodedPublic, Rust.conflict]

theorem exchangeDerive_eq_one {secret peerPublic buffer : Bytes 38}
    (h : (Rust.exchangeDerive (some ⟨some secret, some peerPublic⟩) (some buffer)).1 = 1) :
    ∃ shared, sharedSecret secret.1 peerPublic.1 = .ok shared ∧
      Rust.exchangeDerive (some ⟨some secret, some peerPublic⟩) (some buffer) =
        (1, some shared) := by
  cases hShared : sharedSecret secret.1 peerPublic.1 with
  | error error =>
    have hNever : ∀ a b shared, (⟨some secret, some peerPublic⟩ : X301Exchange) =
        ⟨some a, some b⟩ → sharedSecret a.1 b.1 ≠ .ok shared := by
      rintro a b shared ⟨⟩ hOk
      rw [hShared] at hOk
      cases hOk
    rw [exchangeDerive_of_not_ok hNever] at h
    cases h
  | ok shared => exact ⟨shared, rfl, exchangeDerive_of_ok hShared buffer⟩

end Rust

section Crate

variable (runtime : Runtime σ) {provider : ProviderContext} {s t : σ}
  {encoded shared secret peerPublic : Bytes 38}

theorem Runtime.guarded_eq {α : Type} {name : String} {object result : α}
    {operation : ℤ × Option α} (h : runtime.guarded name object operation s = ((1, result), t)) :
    operation.1 = 1 ∧ result = operation.2.getD object := by
  have hOne : (runtime.guarded name object operation s).1.1 = 1 := by rw [h]
  obtain ⟨hStatus, hObject⟩ := runtime.guarded_eq_one hOne
  rw [h] at hObject
  exact ⟨hStatus, hObject⟩

variable [ModularInverse]

theorem Runtime.keyGetPublic_of_public {key : X301Key} (h : key.publicKey = some encoded)
    (buffer : Bytes 38) (s : σ) :
    runtime.rustApi.keyGetPublic (some key) buffer s = ((1, encoded), s) := by
  simp only [rustApi, Rust.keyGetPublic, Option.bind_some, h, Rust.writeComponent_full,
    Option.getD_some]

theorem Runtime.exchange_agreed {own peer : X301Key} {exchange₀ exchange₁ exchange₂ : X301Exchange}
    {s₁ s₂ s₃ s₄ s₅ s₆ : σ} (hOwn : own.privateKey = some secret)
    (hPublic : peer.publicKey = some peerPublic)
    (hInit : runtime.rustApi.exchangeInit exchange₀ (some own) s₁ = ((1, exchange₁), s₂))
    (hPeer : runtime.rustApi.exchangeSetPeer exchange₁ (some peer) s₃ = ((1, exchange₂), s₄))
    (hDerive : runtime.rustApi.exchangeDerive exchange₂ (.replicate 38 0) s₅ =
      ((1, shared), s₆)) : sharedSecret secret.1 peerPublic.1 = .ok shared := by
  obtain ⟨_, ownPublic⟩ := own
  obtain ⟨peerPrivate, _⟩ := peer
  obtain rfl := hOwn
  obtain rfl := hPublic
  obtain rfl : exchange₁ = ⟨some secret, none⟩ := (runtime.guarded_eq hInit).2
  obtain rfl : exchange₂ = ⟨some secret, some peerPublic⟩ := by
    rw [(runtime.guarded_eq hPeer).2, Rust.exchangeSetPeer_of_public]
    rfl
  obtain ⟨hStatus, hShared⟩ := runtime.guarded_eq hDerive
  obtain ⟨found, hOk, hFound⟩ := Rust.exchangeDerive_eq_one hStatus
  rw [hFound] at hShared
  obtain rfl := hShared
  exact hOk

theorem ServerCalls.agreed {peer : X301Key}
    (h : ServerCalls runtime.rustApi provider (some peer) s encoded shared)
    (hPublic : peer.publicKey = some peerPublic) :
    ∃ own, encoded = publicOf own ∧ sharedSecret own.1 peerPublic.1 = .ok shared := by
  obtain ⟨own, exchange₀, exchange₁, exchange₂, s₁, s₂, s₃, s₄, s₅, s₆, hKey, -, hRead, hInit,
    hPeer, hDerive⟩ := h
  obtain ⟨secret, rfl⟩ := generateRawKey_eq_some (congrArg Prod.fst hKey)
  rw [runtime.keyGetPublic_of_public rfl] at hRead
  obtain ⟨hPair, -⟩ := Prod.mk.inj hRead
  refine ⟨secret, (Prod.mk.inj hPair).2.symm, ?_⟩
  exact runtime.exchange_agreed rfl hPublic hInit hPeer hDerive

theorem ClientCalls.agreed {own : X301Key}
    (h : ClientCalls runtime.rustApi (some own) encoded s shared)
    (hOwn : own.privateKey = some secret) : x301 secret.1 encoded.1 = .ok shared := by
  obtain ⟨peer₀, peer₁, exchange₀, exchange₁, exchange₂, s₁, s₂, s₃, s₄, s₅, s₆, hKey, -, hSet,
    hInit, hPeer, hDerive⟩ := h
  obtain rfl := runtime.keyNew_eq_some (congrArg Prod.fst hKey)
  obtain rfl : peer₁ = ⟨none, some (canonicalForm encoded)⟩ := by
    rw [(runtime.guarded_eq hSet).2, Rust.keySetEncodedPublic_fresh]
    rfl
  rw [x301_congr secret.1 (decodedU_canonicalForm encoded).symm]
  exact runtime.exchange_agreed hOwn rfl hInit hPeer hDerive

/-! ### When nothing fails for lack of memory -/

variable {runtime} (hRuntime : runtime.NeverFails)

include hRuntime

omit [ModularInverse] in
theorem Runtime.NeverFails.newObject {α : Type} (site : String) (build : Bool → Option α) (s : σ) :
    ∃ t, runtime.newObject site build s = (build true, t) := by
  have hPanics := hRuntime.panics site s
  rcases hStart : runtime.panics site s with ⟨_ | _, t⟩
  · rw [Runtime.newObject, hStart]
    exact ⟨_, congrArg (fun outcome => (build outcome, (runtime.allocates site t).2))
      (hRuntime.allocates site t)⟩
  · rw [hStart] at hPanics
    cases hPanics

omit [ModularInverse] in
theorem Runtime.NeverFails.guarded {α : Type} {operation : ℤ × Option α} {result : α}
    (hOperation : operation = (1, some result)) (name : String) (object : α) (s : σ) :
    ∃ t, runtime.guarded name object operation s = ((1, result), t) := by
  obtain rfl := hOperation
  have hPanics := hRuntime.panics name s
  rcases hStart : runtime.panics name s with ⟨_ | _, t⟩
  · exact ⟨t, by rw [Runtime.guarded, hStart]; rfl⟩
  · rw [hStart] at hPanics
    cases hPanics

theorem Runtime.NeverFails.exchange {own peer : X301Key} (hOwn : own.privateKey = some secret)
    (hPublic : peer.publicKey = some peerPublic)
    (hShared : sharedSecret secret.1 peerPublic.1 = .ok shared) (s₁ : σ) :
    ∃ s₂ s₃ s₄, runtime.rustApi.exchangeInit ⟨none, none⟩ (some own) s₁ =
        ((1, ⟨some secret, none⟩), s₂) ∧
      runtime.rustApi.exchangeSetPeer ⟨some secret, none⟩ (some peer) s₂ =
        ((1, ⟨some secret, some peerPublic⟩), s₃) ∧
      runtime.rustApi.exchangeDerive ⟨some secret, some peerPublic⟩ (.replicate 38 0) s₃ =
        ((1, shared), s₄) := by
  obtain ⟨_, ownPublic⟩ := own
  obtain ⟨peerPrivate, _⟩ := peer
  obtain rfl := hOwn
  obtain rfl := hPublic
  obtain ⟨s₂, hInit⟩ := hRuntime.guarded
    (rfl : Rust.exchangeInit (some ⟨none, none⟩) (some ⟨some secret, ownPublic⟩) = _)
    "exchange_init" ⟨none, none⟩ s₁
  obtain ⟨s₃, hPeer⟩ := hRuntime.guarded
    (Rust.exchangeSetPeer_of_public secret peerPublic none peerPrivate)
    "exchange_set_peer" ⟨some secret, none⟩ s₂
  obtain ⟨s₄, hDerive⟩ := hRuntime.guarded
    (Rust.exchangeDerive_of_ok hShared (.replicate 38 0)) "exchange_derive" (.replicate 38 0) s₃
  exact ⟨s₂, s₃, s₄, hInit, hPeer, hDerive⟩

theorem ClientCalls.of_ok {own : X301Key} (hOwn : own.privateKey = some secret)
    (hShared : x301 secret.1 encoded.1 = .ok shared) (s : σ) :
    ClientCalls runtime.rustApi (some own) encoded s shared := by
  obtain ⟨s₁, hKey⟩ := hRuntime.newObject "key_new" Rust.keyNew s
  obtain ⟨s₂, hNew⟩ := hRuntime.newObject "exchange_new" Rust.exchangeNew s₁
  obtain ⟨s₃, hSet⟩ := hRuntime.guarded (Rust.keySetEncodedPublic_fresh encoded)
    "key_set_encoded_public" ⟨none, none⟩ s₂
  have hCanonical : sharedSecret secret.1 (canonicalForm encoded).1 = .ok shared :=
    (x301_congr secret.1 (decodedU_canonicalForm encoded)).trans hShared
  have hPublic : X301Key.publicKey ⟨none, some (canonicalForm encoded)⟩ =
      some (canonicalForm encoded) := rfl
  obtain ⟨s₄, s₅, s₆, hInit, hPeer, hDerive⟩ := hRuntime.exchange hOwn hPublic hCanonical s₃
  exact ⟨_, _, _, _, _, s₁, s₂, s₃, s₄, s₅, s₆, hKey, hNew, hSet, hInit, hPeer, hDerive⟩

theorem Runtime.NeverFails.generateRawKey (hRust : provider.hasRust = true)
    (hLibctx : provider.hasLibctx = true)
    (hRandom : ∀ s, (runtime.fillRandom provider s).1 = (1, secret)) (s : σ) :
    ∃ t, X301Provider.generateRawKey runtime.rustApi provider s =
      (some ⟨some secret, some (publicOf secret)⟩, t) := by
  have hPanics := hRuntime.panics "key_generate" s
  rcases hStart : runtime.panics "key_generate" s with ⟨_ | _, t⟩
  · have hFill := hRandom t
    rcases hFilled : runtime.fillRandom provider t with ⟨⟨status, filled⟩, u⟩
    rw [hFilled] at hFill
    obtain ⟨rfl, rfl⟩ := Prod.mk.inj hFill
    have hAllocates := hRuntime.allocates "key_generate" u
    rcases hNew : runtime.allocates "key_generate" u with ⟨allocates, v⟩
    rw [hNew] at hAllocates
    obtain rfl := hAllocates
    have hKey : Rust.keyGenerate (some fun _ => (1, filled)) true =
        some ⟨some filled, some (publicOf filled)⟩ := Rust.keyGenerate_of_fill rfl
    refine ⟨v, ?_⟩
    simp only [X301Provider.generateRawKey, hRust, hLibctx, Bool.not_true, Bool.or_self,
      Bool.false_eq_true, if_false, rustApi, hStart, hFilled, if_true, hNew, hKey]
  · rw [hStart] at hPanics
    cases hPanics

theorem ServerCalls.of_random {peer : X301Key} (hRust : provider.hasRust = true)
    (hLibctx : provider.hasLibctx = true)
    (hRandom : ∀ s, (runtime.fillRandom provider s).1 = (1, secret))
    (hPublic : peer.publicKey = some peerPublic)
    (hShared : sharedSecret secret.1 peerPublic.1 = .ok shared) (s : σ) :
    ServerCalls runtime.rustApi provider (some peer) s (publicOf secret) shared := by
  obtain ⟨s₁, hKey⟩ := hRuntime.generateRawKey hRust hLibctx hRandom s
  obtain ⟨s₂, hNew⟩ := hRuntime.newObject "exchange_new" Rust.exchangeNew s₁
  have hOwn : X301Key.privateKey ⟨some secret, some (publicOf secret)⟩ = some secret := rfl
  obtain ⟨s₃, s₄, s₅, hInit, hPeer, hDerive⟩ := hRuntime.exchange hOwn hPublic hShared s₂
  exact ⟨_, _, _, _, s₁, s₂, s₂, s₃, s₄, s₅, hKey, hNew, runtime.keyGetPublic_of_public rfl _ s₂,
    hInit, hPeer, hDerive⟩

end Crate

end X301Provider
