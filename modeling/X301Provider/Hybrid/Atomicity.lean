import X301Provider.Hybrid.Kem

/-!
# All or nothing

While a body runs, the caller's memory is untouched and the trace has one
acquisition for each object that the frame holds. Every jump to the label is
taken in such a frame, and the only step that writes the caller's memory is the
last one.
-/

namespace X301Provider

open Limbs ByteRegion Cleanup ResourceEvent

namespace KemFrame

variable {σ Key Exchange Pkey Context Caller α : Type} {caller : Caller}
  {later : List KemResource} {frame next : KemFrame σ Key Exchange Context Caller}

def holds (frame : KemFrame σ Key Exchange Context Caller) : KemResource → Bool
  | .mlkemContext => frame.mlkemContext.isSome
  | .x301Key => frame.x301.isSome
  | .exchange => frame.exchange.isSome

def order : List KemResource := [.mlkemContext, .x301Key, .exchange]

theorem nodup_order : order.Nodup := by decide

def held (frame : KemFrame σ Key Exchange Context Caller) : List KemResource :=
  order.filter frame.holds

def Traced (frame : KemFrame σ Key Exchange Context Caller) : Prop :=
  frame.trace = frame.held.map .acquired

/-- The caller's memory is as it was, and the later resources are still to be acquired. -/
structure Holding (caller : Caller) (later : List KemResource)
    (frame : KemFrame σ Key Exchange Context Caller) : Prop where
  caller_eq : frame.caller = caller
  traced : frame.Traced
  later_free : ∀ resource ∈ later, frame.holds resource = false

theorem held_congr (h : next.holds = frame.holds) : next.held = frame.held :=
  congrArg (fun holds => List.filter holds _) h

theorem Holding.weaken (h : Holding caller later frame) : Holding caller [] frame :=
  ⟨h.caller_eq, h.traced, fun _ hMem => absurd hMem List.not_mem_nil⟩

/-- A step that touches neither the caller's memory nor the objects. -/
theorem Holding.congr (h : Holding caller later frame) (hCaller : next.caller = frame.caller)
    (hTrace : next.trace = frame.trace) (hHolds : next.holds = frame.holds) :
    Holding caller later next := by
  refine ⟨hCaller.trans h.caller_eq, ?_, ?_⟩
  · rw [Traced, hTrace, held_congr hHolds]
    exact h.traced
  · intro resource hMem
    rw [hHolds]
    exact h.later_free resource hMem

theorem holding_start (s : σ) (caller : Caller) :
    Holding caller order
      (.start s caller : KemFrame σ Key Exchange Context Caller) := by
  refine ⟨rfl, rfl, ?_⟩
  intro resource _
  cases resource with
  | mlkemContext => rfl
  | x301Key => rfl
  | exchange => rfl

section Steps

variable {jumped : KemFrame σ Key Exchange Context Caller → Prop}

theorem callee_triple (call : σ → α × σ) :
    Triple (Holding caller later) (callee call : Cleanup (KemFrame σ Key Exchange Context Caller) α)
      (fun _ => Holding caller later) jumped :=
  Triple.lift fun _ h => h.congr rfl rfl rfl

theorem report_triple (errors : List ProviderError) :
    Triple (Holding caller later)
      (report errors : Cleanup (KemFrame σ Key Exchange Context Caller) Unit)
      (fun _ => Holding caller later) jumped :=
  Triple.lift fun _ h => h.congr rfl rfl rfl

theorem storeSecret_triple {a : ℕ} (offset : ℕ) (region : Bytes a) (hRoom : offset + a ≤ 70) :
    Triple (Holding caller later)
      (storeSecret offset region hRoom : Cleanup (KemFrame σ Key Exchange Context Caller) Unit)
      (fun _ => Holding caller later) jumped :=
  Triple.lift fun _ h => h.congr rfl rfl rfl

theorem require_triple (condition : Bool) :
    Triple (Holding caller later)
      (require condition : Cleanup (KemFrame σ Key Exchange Context Caller) Unit)
      (fun _ => Holding caller later) (Holding caller []) :=
  Triple.require fun _ h => h.weaken

theorem present_triple (value : Option α) :
    Triple (Holding caller later)
      (present value : Cleanup (KemFrame σ Key Exchange Context Caller) α)
      (fun _ => Holding caller later) (Holding caller []) :=
  Triple.present fun _ h => h.weaken

theorem requireOrRaise_triple (condition : Bool) (errors : List ProviderError) :
    Triple (Holding caller later)
      (requireOrRaise condition errors : Cleanup (KemFrame σ Key Exchange Context Caller) Unit)
      (fun _ => Holding caller later) (Holding caller []) :=
  (report_triple _).bind fun _ => require_triple condition

theorem onX301_triple (call : σ → (ℤ × Key) × σ) :
    Triple (Holding caller later)
      (onX301 call : Cleanup (KemFrame σ Key Exchange Context Caller) (ℤ × Key))
      (fun _ => Holding caller later) jumped := by
  apply Triple.lift
  intro frame h
  refine h.congr rfl rfl ?_
  funext resource
  cases resource with
  | mlkemContext => rfl
  | x301Key => exact Option.isSome_map
  | exchange => rfl

theorem onExchange_triple (call : σ → (ℤ × Exchange) × σ) :
    Triple (Holding caller later)
      (onExchange call : Cleanup (KemFrame σ Key Exchange Context Caller) (ℤ × Exchange))
      (fun _ => Holding caller later) jumped := by
  apply Triple.lift
  intro frame h
  refine h.congr rfl rfl ?_
  funext resource
  cases resource with
  | mlkemContext => rfl
  | x301Key => rfl
  | exchange => exact Option.isSome_map

/-- Acquiring the next resource; `next` is the frame after the call. -/
theorem Holding.acquire {resource : KemResource} {object : Option α} (before : List KemResource)
    (hOrder : order = before ++ resource :: later)
    (h : Holding caller (resource :: later) frame) (hCaller : next.caller = frame.caller)
    (hTrace : next.trace = noteAcquired frame.trace resource object)
    (hOwn : next.holds resource = object.isSome)
    (hOther : ∀ other ≠ resource, next.holds other = frame.holds other) :
    Holding caller later next := by
  have hNodup := nodup_order
  rw [hOrder, List.nodup_append, List.nodup_cons] at hNodup
  obtain ⟨-, ⟨hNotLater, -⟩, hDisjoint⟩ := hNodup
  have hBefore : before.filter next.holds = before.filter frame.holds := by
    apply List.filter_congr
    intro other hMem
    exact hOther other (hDisjoint other hMem resource List.mem_cons_self)
  have hLater : ∀ other ∈ later, next.holds other = false := by
    intro other hMem
    rw [hOther other fun hEq => hNotLater (hEq ▸ hMem)]
    exact h.later_free other (List.mem_cons_of_mem resource hMem)
  have hNone : ∀ holds : KemResource → Bool, (∀ other ∈ later, holds other = false) →
      later.filter holds = [] := by
    intro holds hFree
    rw [List.filter_eq_nil_iff]
    intro other hMem
    rw [hFree other hMem]
    exact Bool.false_ne_true
  have hHeld : frame.held = before.filter frame.holds := by
    rw [held, hOrder, List.filter_append,
      List.filter_cons_of_neg (by simp [h.later_free resource List.mem_cons_self]),
      hNone _ fun other hMem => h.later_free other (List.mem_cons_of_mem resource hMem),
      List.append_nil]
  refine ⟨hCaller.trans h.caller_eq, ?_, hLater⟩
  rw [Traced, hTrace, held, hOrder, List.filter_append, hBefore, List.filter_cons, hOwn,
    hNone _ hLater, ← hHeld]
  cases object with
  | none =>
    rw [noteAcquired, h.traced]
    simp
  | some object =>
    rw [noteAcquired, h.traced]
    simp

theorem acquireMlkemContext_triple (call : σ → Option Context × σ) :
    Triple (Holding caller order)
      (acquireMlkemContext call : Cleanup (KemFrame σ Key Exchange Context Caller) (Option Context))
      (fun _ => Holding caller [.x301Key, .exchange]) jumped := by
  apply Triple.lift
  intro frame h
  refine Holding.acquire [] rfl h rfl rfl rfl ?_
  intro other hNe
  cases other with
  | mlkemContext => exact absurd rfl hNe
  | x301Key => rfl
  | exchange => rfl

theorem acquireX301_triple (call : σ → Option Key × σ) :
    Triple (Holding caller [.x301Key, .exchange])
      (acquireX301 call : Cleanup (KemFrame σ Key Exchange Context Caller) (Option Key))
      (fun _ => Holding caller [.exchange]) jumped := by
  apply Triple.lift
  intro frame h
  refine Holding.acquire [.mlkemContext] rfl h rfl rfl rfl ?_
  intro other hNe
  cases other with
  | mlkemContext => rfl
  | x301Key => exact absurd rfl hNe
  | exchange => rfl

theorem acquireExchange_triple (call : σ → Option Exchange × σ) :
    Triple (Holding caller [.exchange])
      (acquireExchange call : Cleanup (KemFrame σ Key Exchange Context Caller) (Option Exchange))
      (fun _ => Holding caller []) jumped := by
  apply Triple.lift
  intro frame h
  refine Holding.acquire [.mlkemContext, .x301Key] rfl h rfl rfl rfl ?_
  intro other hNe
  cases other with
  | mlkemContext => rfl
  | x301Key => rfl
  | exchange => exact absurd rfl hNe

end Steps

/-! ### The cleanup label -/

@[simp] theorem release_caller (resource : KemResource) (object : Option α) (free : α → σ → σ) :
    (frame.release resource object free).caller = frame.caller := by
  cases object with
  | none => rfl
  | some object => rfl

@[simp] theorem release_trace (resource : KemResource) (object : Option α) (free : α → σ → σ) :
    (frame.release resource object free).trace =
      frame.trace ++ ([resource].filter fun _ => object.isSome).map .released := by
  cases object with
  | none => exact (List.append_nil frame.trace).symm
  | some object => rfl

@[simp] theorem release_exchange (resource : KemResource) (object : Option α) (free : α → σ → σ) :
    (frame.release resource object free).exchange = frame.exchange := by
  cases object with
  | none => rfl
  | some object => rfl

@[simp] theorem release_x301 (resource : KemResource) (object : Option α) (free : α → σ → σ) :
    (frame.release resource object free).x301 = frame.x301 := by
  cases object with
  | none => rfl
  | some object => rfl

variable (rust : RustApi σ Key Exchange) (mlkem : MlKemApi σ Pkey Context)

theorem cleanup_caller : (frame.cleanup rust mlkem).caller = frame.caller := by
  simp [cleanup]

def freed (frame : KemFrame σ Key Exchange Context Caller) : List KemResource :=
  [.mlkemContext, .exchange, .x301Key].filter frame.holds

theorem freed_perm_held : frame.freed.Perm frame.held :=
  List.Perm.filter _ (List.Perm.cons _ (List.Perm.swap _ _ _))

theorem cleanup_trace :
    (frame.cleanup rust mlkem).trace = frame.trace ++ frame.freed.map .released := by
  have hFreed : frame.freed = ([.mlkemContext].filter fun _ => frame.mlkemContext.isSome) ++
      (([.exchange].filter fun _ => frame.exchange.isSome) ++
        [.x301Key].filter fun _ => frame.x301.isSome) := by
    change List.filter frame.holds ([.mlkemContext] ++ ([.exchange] ++ [.x301Key])) = _
    rw [List.filter_append, List.filter_append]
    rfl
  simp only [cleanup, release_trace, release_exchange, release_x301]
  rw [hFreed, List.map_append, List.map_append, List.append_assoc, List.append_assoc]

theorem Traced.releasedOnce (h : frame.Traced) (resource : KemResource) :
    ReleasedOnce (frame.cleanup rust mlkem).trace resource := by
  rw [cleanup_trace, h]
  exact releasedOnce_of_perm (nodup_order.filter _) freed_perm_held resource

end KemFrame

/-- The secret is gone, and whatever was acquired was released once. -/
structure KemEpilogue.Clean (epilogue : KemEpilogue) : Prop where
  secret_zero : epilogue.temporarySecret = .replicate 70 0
  released : ∀ resource, ReleasedOnce epilogue.trace resource

open KemFrame

section Bodies

variable {σ Key Exchange Pkey Context Caller : Type} {rust : RustApi σ Key Exchange}
  {mlkem : MlKemApi σ Pkey Context} {caller : Caller}

theorem encapsulateMlkem_triple (provider : ProviderContext) (pkey : Option Pkey) :
    Triple (Holding caller order)
      (encapsulateMlkem mlkem provider pkey :
        Cleanup (KemFrame σ Key Exchange Context Caller) (Bytes 1568))
      (fun _ => Holding caller [.x301Key, .exchange]) (Holding caller []) := by
  refine (acquireMlkemContext_triple _).bind fun found => ?_
  refine (present_triple found).bind fun mlkemContext => ?_
  refine (callee_triple _).bind fun status => ?_
  refine (require_triple _).bind fun _ => ?_
  refine (callee_triple _).bind fun result => ?_
  refine (storeSecret_triple _ _ _).bind fun _ => ?_
  refine (require_triple _).bind fun _ => ?_
  refine (requireOrRaise_triple _ _).bind fun _ => ?_
  exact Triple.pure fun _ h => h

theorem encapsulateX301_triple (provider : ProviderContext) (peer : Option Key) :
    Triple (Holding caller [.x301Key, .exchange])
      (encapsulateX301 rust provider peer :
        Cleanup (KemFrame σ Key Exchange Context Caller) (Bytes 38))
      (fun _ => Holding caller []) (Holding caller []) := by
  refine (acquireX301_triple _).bind fun key => ?_
  refine (report_triple _).bind fun _ => ?_
  refine (acquireExchange_triple _).bind fun found => ?_
  refine (present_triple key).bind fun serverX301 => ?_
  refine (requireOrRaise_triple _ _).bind fun _ => ?_
  refine (present_triple found).bind fun exchange => ?_
  refine (callee_triple _).bind fun read => ?_
  refine (requireOrRaise_triple _ _).bind fun _ => ?_
  refine (onExchange_triple _).bind fun initialized => ?_
  refine (requireOrRaise_triple _ _).bind fun _ => ?_
  refine (onExchange_triple _).bind fun paired => ?_
  refine (requireOrRaise_triple _ _).bind fun _ => ?_
  refine (callee_triple _).bind fun derived => ?_
  refine (storeSecret_triple _ _ _).bind fun _ => ?_
  refine (requireOrRaise_triple _ _).bind fun _ => ?_
  exact Triple.pure fun _ h => h

theorem decapsulateMlkem_triple (provider : ProviderContext) (pkey : Option Pkey)
    (ciphertext : Bytes 1568) :
    Triple (Holding caller order)
      (decapsulateMlkem mlkem provider pkey ciphertext :
        Cleanup (KemFrame σ Key Exchange Context Caller) Unit)
      (fun _ => Holding caller [.x301Key, .exchange]) (Holding caller []) := by
  refine (acquireMlkemContext_triple _).bind fun found => ?_
  refine (present_triple found).bind fun mlkemContext => ?_
  refine (callee_triple _).bind fun status => ?_
  refine (require_triple _).bind fun _ => ?_
  refine (callee_triple _).bind fun result => ?_
  refine (storeSecret_triple _ _ _).bind fun _ => ?_
  refine (require_triple _).bind fun _ => ?_
  exact requireOrRaise_triple _ _

theorem decapsulateX301_triple (provider : ProviderContext) (own : Option Key)
    (encoded : Bytes 38) :
    Triple (Holding caller [.x301Key, .exchange])
      (decapsulateX301 rust provider own encoded :
        Cleanup (KemFrame σ Key Exchange Context Caller) Unit)
      (fun _ => Holding caller []) (Holding caller []) := by
  refine (acquireX301_triple _).bind fun key => ?_
  refine (acquireExchange_triple _).bind fun found => ?_
  refine (requireOrRaise_triple _ _).bind fun _ => ?_
  refine (present_triple key).bind fun peerX301 => ?_
  refine (present_triple found).bind fun exchange => ?_
  refine (onX301_triple _).bind fun encodedPeer => ?_
  refine (requireOrRaise_triple _ _).bind fun _ => ?_
  refine (onExchange_triple _).bind fun initialized => ?_
  refine (requireOrRaise_triple _ _).bind fun _ => ?_
  refine (onExchange_triple _).bind fun paired => ?_
  refine (requireOrRaise_triple _ _).bind fun _ => ?_
  refine (callee_triple _).bind fun derived => ?_
  refine (storeSecret_triple _ _ _).bind fun _ => ?_
  exact requireOrRaise_triple _ _

/-- What a returning body leaves: the caller's memory as `written` says, and a true trace. -/
def Committed (written : Caller → Prop) (frame : KemFrame σ Key Exchange Context Caller) : Prop :=
  written frame.caller ∧ frame.Traced

theorem commit_triple {written : Caller → Prop} (write : Bytes 70 → Caller)
    (h : ∀ secret, written (write secret)) :
    Triple (Holding caller [])
      (commit write : Cleanup (KemFrame σ Key Exchange Context Caller) Unit)
      (fun _ => Committed written) (Holding caller []) :=
  Triple.lift fun frame hFrame => ⟨h frame.temporarySecret, hFrame.traced⟩

/-- The whole of a body that is all or nothing on the caller's memory. -/
def AtomicBody (body : Cleanup (KemFrame σ Key Exchange Context Caller) Unit)
    (written : Caller → Prop) : Prop :=
  ∀ caller, Triple (Holding caller order) body (fun _ => Committed written) (Holding caller [])

theorem AtomicBody.mono {body : Cleanup (KemFrame σ Key Exchange Context Caller) Unit}
    {written written' : Caller → Prop} (h : AtomicBody body written)
    (hImp : ∀ after, written after → written' after) : AtomicBody body written' :=
  fun caller => (h caller).conseq (fun _ hFrame => hFrame)
    fun _ frame hFrame => ⟨hImp frame.caller hFrame.1, hFrame.2⟩

/-- Both buffers of the caller with their first bytes overwritten, and the lengths of these. -/
def EncapsulateOutput.Written (ciphertext sharedSecret : List UInt8) (output : EncapsulateOutput) :
    Prop :=
  ∃ (encoded : Bytes 1606) (secret : Bytes 70), output =
    ⟨⟨some (memcpy ciphertext encoded), some 1606⟩, ⟨some (memcpy sharedSecret secret), some 70⟩⟩

def OutputBuffer.Written (sharedSecret : List UInt8) (output : OutputBuffer) : Prop :=
  ∃ secret : Bytes 70, output = ⟨some (memcpy sharedSecret secret), some 70⟩

theorem encapsulateBody_atomic (provider : ProviderContext) (key : HybridKey Key Pkey)
    (ciphertext sharedSecret : List UInt8) :
    AtomicBody (encapsulateBody rust mlkem provider key ciphertext sharedSecret)
      (EncapsulateOutput.Written ciphertext sharedSecret) := by
  intro caller
  refine (encapsulateMlkem_triple provider key.mlkem).bind fun mlkemCiphertext => ?_
  refine (encapsulateX301_triple provider key.x301).bind fun encoded => ?_
  exact commit_triple _ fun secret => ⟨_, secret, rfl⟩

theorem decapsulateBody_atomic (provider : ProviderContext) (key : HybridKey Key Pkey)
    (ciphertext : Bytes 1606) (sharedSecret : List UInt8) :
    AtomicBody (decapsulateBody rust mlkem provider key ciphertext sharedSecret)
      (OutputBuffer.Written sharedSecret) := by
  intro caller
  refine (decapsulateMlkem_triple provider key.mlkem _).bind fun _ => ?_
  refine (decapsulateX301_triple provider key.x301 _).bind fun _ => ?_
  exact commit_triple _ fun secret => ⟨secret, rfl⟩

variable (rust mlkem) in
theorem runToCleanup_atomic {body : Cleanup (KemFrame σ Key Exchange Context Caller) Unit}
    {written : Caller → Prop} (hBody : AtomicBody body written) (caller : Caller) (s : σ) :
    ((runToCleanup rust mlkem body caller s).status = 0 ∧
        (runToCleanup rust mlkem body caller s).caller = caller ∨
      (runToCleanup rust mlkem body caller s).status = 1 ∧
        written (runToCleanup rust mlkem body caller s).caller) ∧
    ∃ epilogue, (runToCleanup rust mlkem body caller s).epilogue = some epilogue ∧
      epilogue.Clean := by
  obtain ⟨hReturn, hJump⟩ := hBody caller (.start s caller) (holding_start s caller)
  rcases hRun : body (.start s caller) with ⟨_ | _, frame⟩
  · rw [hRun] at hJump
    have hFrame := hJump rfl
    simp only [runToCleanup, hRun, cleanup_caller]
    exact ⟨Or.inl ⟨rfl, hFrame.caller_eq⟩, _, rfl, rfl, hFrame.traced.releasedOnce rust mlkem⟩
  · rw [hRun] at hReturn
    obtain ⟨hWritten, hTraced⟩ := hReturn () rfl
    simp only [runToCleanup, hRun, cleanup_caller]
    exact ⟨Or.inr ⟨rfl, hWritten⟩, _, rfl, rfl, hTraced.releasedOnce rust mlkem⟩

end Bodies

/-! ### Both operations -/

/-- The context has been initialised for the operation. -/
def HybridKemContext.Initialized {Ref : Type} (context : Option (HybridKemContext Ref))
    (operation : KemOperation) : Prop :=
  ∃ provider key, context = some ⟨some provider, some key, operation⟩

/-- All four pointers are there, and the lengths are as `room` says. -/
def EncapsulateOutput.Given (output : EncapsulateOutput) (room : ℕ → ℕ → Prop) : Prop :=
  ∃ ciphertext ciphertextLength sharedSecret sharedSecretLength,
    output = ⟨⟨some ciphertext, some ciphertextLength⟩, ⟨some sharedSecret, some sharedSecretLength⟩⟩ ∧
      room ciphertextLength sharedSecretLength

def OutputBuffer.Given (output : OutputBuffer) (room : ℕ → Prop) : Prop :=
  ∃ sharedSecret sharedSecretLength, output = ⟨some sharedSecret, some sharedSecretLength⟩ ∧
    room sharedSecretLength

/-- A call seen from its caller. `accepted` says that the arguments pass all checks, `tooSmall`
that they pass all but the one for room, `sized` is the caller's memory with the required lengths,
and `written` what a call that is no length query leaves when it succeeds. -/
structure KemOutcome.AllOrNothing {σ Caller : Type} (outcome : KemOutcome σ Caller)
    (before : Caller) (s : σ) (accepted tooSmall query : Prop) (sized : Caller)
    (written : Caller → Prop) : Prop where
  status_eq : outcome.status = 0 ∨ outcome.status = 1
  failed : outcome.status = 0 → ¬tooSmall → outcome.caller = before
  small : tooSmall → outcome.status = 0 ∧ outcome.caller = sized
  succeeded : outcome.status = 1 → ¬query → accepted ∧ written outcome.caller
  queried : outcome.status = 1 → query → outcome.caller = sized
  refused : ¬accepted → outcome.callees = s ∧ outcome.epilogue = none
  clean : accepted → ∃ epilogue, outcome.epilogue = some epilogue ∧ epilogue.Clean

def EncapsulateAllOrNothing {σ Ref : Type} (context : Option (HybridKemContext Ref))
    (output : EncapsulateOutput) (s : σ) (outcome : KemOutcome σ EncapsulateOutput) : Prop :=
  outcome.AllOrNothing output s
    (HybridKemContext.Initialized context .kemEncapsulate ∧
      output.Given fun c k => 1606 ≤ c ∧ 70 ≤ k)
    (HybridKemContext.Initialized context .kemEncapsulate ∧
      output.Given fun c k => c < 1606 ∨ k < 70)
    (output.ciphertext.memory = none) output.setLengths
    (fun after => ∃ ciphertext sharedSecret, output.ciphertext.memory = some ciphertext ∧
      output.sharedSecret.memory = some sharedSecret ∧
      after.Written ciphertext sharedSecret)

def DecapsulateAllOrNothing {σ Ref : Type} (context : Option (HybridKemContext Ref))
    (output : OutputBuffer) (ciphertext : ByteInput) (s : σ)
    (outcome : KemOutcome σ OutputBuffer) : Prop :=
  outcome.AllOrNothing output s
    (HybridKemContext.Initialized context .kemDecapsulate ∧
      (output.Given fun k => 70 ≤ k) ∧ ∃ encoded : Bytes 1606, ciphertext = .bytes encoded.1)
    (HybridKemContext.Initialized context .kemDecapsulate ∧
      (output.Given fun k => k < 70) ∧ ∃ encoded : Bytes 1606, ciphertext = .bytes encoded.1)
    (output.memory = none) (output.setLength 70)
    (fun after => ∃ sharedSecret, output.memory = some sharedSecret ∧
      after.Written sharedSecret)

namespace KemOutcome.AllOrNothing

variable {σ Key Exchange Pkey Context Caller : Type} {s : σ} {before sized : Caller}
  {accepted tooSmall query : Prop} {written : Caller → Prop}

theorem of_refused (errors : List ProviderError) (hAccepted : ¬accepted) (hSmall : ¬tooSmall) :
    (early 0 before s errors).AllOrNothing before s accepted tooSmall query sized written where
  status_eq := Or.inl rfl
  failed _ _ := rfl
  small h := absurd h hSmall
  succeeded := by rintro ⟨⟩
  queried := by rintro ⟨⟩
  refused _ := ⟨rfl, rfl⟩
  clean h := absurd h hAccepted

theorem of_small (errors : List ProviderError) (hAccepted : ¬accepted) (hSmall : tooSmall) :
    (early 0 sized s errors).AllOrNothing before s accepted tooSmall query sized written where
  status_eq := Or.inl rfl
  failed _ h := absurd hSmall h
  small _ := ⟨rfl, rfl⟩
  succeeded := by rintro ⟨⟩
  queried := by rintro ⟨⟩
  refused _ := ⟨rfl, rfl⟩
  clean h := absurd h hAccepted

theorem of_query (errors : List ProviderError) (hAccepted : ¬accepted) (hSmall : ¬tooSmall)
    (hQuery : query) :
    (early 1 sized s errors).AllOrNothing before s accepted tooSmall query sized written where
  status_eq := Or.inr rfl
  failed := by rintro ⟨⟩
  small h := absurd h hSmall
  succeeded _ h := absurd hQuery h
  queried _ _ := rfl
  refused _ := ⟨rfl, rfl⟩
  clean h := absurd h hAccepted

theorem of_body (rust : RustApi σ Key Exchange) (mlkem : MlKemApi σ Pkey Context)
    {body : Cleanup (KemFrame σ Key Exchange Context Caller) Unit} (hBody : AtomicBody body written)
    (hAccepted : accepted) (hSmall : ¬tooSmall) (hQuery : ¬query) :
    (runToCleanup rust mlkem body before s).AllOrNothing before s accepted tooSmall query sized
      written := by
  obtain ⟨hOutcome, hClean⟩ := runToCleanup_atomic rust mlkem hBody before s
  refine ⟨hOutcome.imp And.left And.left, ?_, fun h => absurd h hSmall, ?_,
    fun _ h => absurd h hQuery, fun h => absurd hAccepted h, fun _ => hClean⟩
  · rintro hZero -
    rcases hOutcome with ⟨-, hSame⟩ | ⟨hOne, -⟩
    · exact hSame
    · rw [hZero] at hOne
      cases hOne
  · rintro hOne -
    rcases hOutcome with ⟨hZero, -⟩ | ⟨-, hWritten⟩
    · rw [hOne] at hZero
      cases hZero
    · exact ⟨hAccepted, hWritten⟩

end KemOutcome.AllOrNothing

section Outcomes

variable {σ Key Exchange Pkey Context : Type} (rust : RustApi σ Key Exchange)
  (mlkem : MlKemApi σ Pkey Context) (context : Option (HybridKemContext (HybridKey Key Pkey)))

open KemOutcome.AllOrNothing

@[simp] theorem EncapsulateOutput.given_mk (ciphertext sharedSecret : List UInt8) (c k : ℕ)
    (room : ℕ → ℕ → Prop) :
    (⟨⟨some ciphertext, some c⟩, ⟨some sharedSecret, some k⟩⟩ : EncapsulateOutput).Given room ↔
      room c k := by
  constructor
  · rintro ⟨_, _, _, _, ⟨⟩, hRoom⟩
    exact hRoom
  · exact fun hRoom => ⟨ciphertext, c, sharedSecret, k, rfl, hRoom⟩

@[simp] theorem OutputBuffer.given_mk (sharedSecret : List UInt8) (k : ℕ) (room : ℕ → Prop) :
    (⟨some sharedSecret, some k⟩ : OutputBuffer).Given room ↔ room k := by
  constructor
  · rintro ⟨_, _, ⟨⟩, hRoom⟩
    exact hRoom
  · exact fun hRoom => ⟨sharedSecret, k, rfl, hRoom⟩

theorem EncapsulateOutput.Given.isSome {output : EncapsulateOutput} {room : ℕ → ℕ → Prop}
    (h : output.Given room) : output.ciphertext.memory.isSome = true ∧
      output.ciphertext.length.isSome = true ∧ output.sharedSecret.memory.isSome = true ∧
      output.sharedSecret.length.isSome = true := by
  obtain ⟨_, _, _, _, rfl, -⟩ := h
  exact ⟨rfl, rfl, rfl, rfl⟩

theorem OutputBuffer.Given.isSome {output : OutputBuffer} {room : ℕ → Prop}
    (h : output.Given room) : output.memory.isSome = true ∧ output.length.isSome = true := by
  obtain ⟨_, _, rfl, -⟩ := h
  exact ⟨rfl, rfl⟩

theorem hybridEncapsulate_allOrNothing (output : EncapsulateOutput) (s : σ) :
    EncapsulateAllOrNothing context output s (hybridEncapsulate rust mlkem context output s) := by
  unfold EncapsulateAllOrNothing
  by_cases hReady : HybridKemContext.Initialized context .kemEncapsulate
  · have hInitialized := hReady
    obtain ⟨provider, key, rfl⟩ := hReady
    obtain ⟨⟨_ | ciphertext, ciphertextLength⟩, ⟨sharedSecret, sharedSecretLength⟩⟩ := output
    · simp only [hybridEncapsulate]
      split
      · exact of_refused _ (fun h => nomatch h.2.isSome.1) fun h => nomatch h.2.isSome.1
      · exact of_query _ (fun h => nomatch h.2.isSome.1) (fun h => nomatch h.2.isSome.1) trivial
    · cases ciphertextLength with
      | none =>
        exact of_refused _ (fun h => nomatch h.2.isSome.2.1) fun h => nomatch h.2.isSome.2.1
      | some c =>
        cases sharedSecret with
        | none =>
          exact of_refused _ (fun h => nomatch h.2.isSome.2.2.1) fun h => nomatch h.2.isSome.2.2.1
        | some sharedSecret =>
          cases sharedSecretLength with
          | none =>
            exact of_refused _ (fun h => nomatch h.2.isSome.2.2.2)
              fun h => nomatch h.2.isSome.2.2.2
          | some k =>
            simp only [hybridEncapsulate, EncapsulateOutput.given_mk, hInitialized, true_and,
              Bool.or_eq_true, decide_eq_true_eq]
            split
            · rename_i hSmall
              exact of_small _ (by omega) hSmall
            · rename_i hRoom
              refine of_body rust mlkem ?_ (by omega) hRoom (by simp)
              apply (encapsulateBody_atomic provider key ciphertext sharedSecret).mono
              intro after hWritten
              exact ⟨ciphertext, sharedSecret, rfl, rfl, hWritten⟩
  · rcases context with _ | ⟨_ | provider, _ | key, _ | _ | _⟩
    all_goals first
      | exact of_refused _ (fun h => hReady h.1) fun h => hReady h.1
      | exact absurd ⟨provider, key, rfl⟩ hReady

theorem hybridDecapsulate_allOrNothing (output : OutputBuffer) (ciphertext : ByteInput) (s : σ) :
    DecapsulateAllOrNothing context output ciphertext s
      (hybridDecapsulate rust mlkem context output ciphertext s) := by
  unfold DecapsulateAllOrNothing
  by_cases hReady : HybridKemContext.Initialized context .kemDecapsulate
  · have hInitialized := hReady
    obtain ⟨provider, key, rfl⟩ := hReady
    obtain ⟨_ | sharedSecret, sharedSecretLength⟩ := output
    · simp only [hybridDecapsulate]
      split
      · exact of_refused _ (fun h => nomatch h.2.1.isSome.1) fun h => nomatch h.2.1.isSome.1
      · exact of_query _ (fun h => nomatch h.2.1.isSome.1) (fun h => nomatch h.2.1.isSome.1) trivial
    · cases sharedSecretLength with
      | none =>
        exact of_refused _ (fun h => nomatch h.2.1.isSome.2) fun h => nomatch h.2.1.isSome.2
      | some k =>
        cases ciphertext with
        | null _ =>
          exact of_refused _ (fun ⟨_, _, _, h⟩ => nomatch h) fun ⟨_, _, _, h⟩ => nomatch h
        | bytes region =>
          cases hArray : toArray 1606 region with
          | none =>
            have hLength : ∀ encoded : Bytes 1606, region ≠ encoded.1 := by
              rintro encoded rfl
              rw [toArray_val] at hArray
              cases hArray
            simp only [hybridDecapsulate, hArray]
            exact of_refused _ (fun ⟨_, _, encoded, h⟩ => hLength encoded (ByteInput.bytes.inj h))
              fun ⟨_, _, encoded, h⟩ => hLength encoded (ByteInput.bytes.inj h)
          | some encoded =>
            obtain rfl := toArray_eq_some_iff.mp hArray
            have hEncoded : ∃ other : Bytes 1606, ByteInput.bytes encoded.1 = .bytes other.1 :=
              ⟨encoded, rfl⟩
            simp only [hybridDecapsulate, hArray, OutputBuffer.given_mk, hInitialized, true_and,
              hEncoded, and_true]
            split
            · rename_i hSmall
              exact of_small _ (by omega) hSmall
            · rename_i hRoom
              refine of_body rust mlkem ?_ (by omega) hRoom (by simp)
              apply (decapsulateBody_atomic provider key encoded sharedSecret).mono
              intro after hWritten
              exact ⟨sharedSecret, rfl, hWritten⟩
  · rcases context with _ | ⟨_ | provider, _ | key, _ | _ | _⟩
    all_goals first
      | exact of_refused _ (fun h => hReady h.1) fun h => hReady h.1
      | exact absurd ⟨provider, key, rfl⟩ hReady

/-- Both operations are all or nothing, whatever the callees do. -/
theorem hybridKem_allOrNothing (output : EncapsulateOutput) (secret : OutputBuffer)
    (ciphertext : ByteInput) (s : σ) :
    EncapsulateAllOrNothing context output s (hybridEncapsulate rust mlkem context output s) ∧
      DecapsulateAllOrNothing context secret ciphertext s
        (hybridDecapsulate rust mlkem context secret ciphertext s) := by
  constructor
  · exact hybridEncapsulate_allOrNothing rust mlkem context output s
  · exact hybridDecapsulate_allOrNothing rust mlkem context secret ciphertext s

end Outcomes

end X301Provider
