import X301Provider.Hybrid.Key
import X301Provider.Library.Cleanup

/-!
# Encapsulation and decapsulation

Each function checks its arguments, runs a body that jumps to a common label
when a callee fails, and releases at that label whatever it had acquired. The
caller's memory is written by the last step of the body only.
-/

namespace X301Provider

open Limbs ByteRegion Cleanup

/-- A buffer of the caller and the length variable that goes with it; either pointer may be
null. -/
structure OutputBuffer where
  memory : Option (List UInt8)
  length : Option ℕ

def OutputBuffer.setLength (buffer : OutputBuffer) (length : ℕ) : OutputBuffer :=
  { buffer with length := buffer.length.map fun _ => length }

structure EncapsulateOutput where
  ciphertext : OutputBuffer
  sharedSecret : OutputBuffer

def EncapsulateOutput.setLengths (output : EncapsulateOutput) : EncapsulateOutput :=
  ⟨output.ciphertext.setLength 1606, output.sharedSecret.setLength 70⟩

/-- What a KEM operation acquires. -/
inductive KemResource
  | mlkemContext
  | x301Key
  | exchange
  deriving DecidableEq

/-- The locals of a KEM operation, with the state outside and the memory of its caller. -/
structure KemFrame (σ Key Exchange Context Caller : Type) where
  callees : σ
  caller : Caller
  mlkemContext : Option Context
  x301 : Option Key
  exchange : Option Exchange
  temporarySecret : Bytes 70
  errors : List ProviderError
  trace : List (ResourceEvent KemResource)

/-- What the function leaves behind at its cleanup label. -/
structure KemEpilogue where
  temporarySecret : Bytes 70
  trace : List (ResourceEvent KemResource)

/-- An outcome without an epilogue is a return from the argument checks. -/
structure KemOutcome (σ Caller : Type) where
  status : ℤ
  caller : Caller
  callees : σ
  errors : List ProviderError
  epilogue : Option KemEpilogue

def KemOutcome.early {σ Caller : Type} (status : ℤ) (caller : Caller) (callees : σ)
    (errors : List ProviderError) : KemOutcome σ Caller :=
  ⟨status, caller, callees, errors, none⟩

namespace KemFrame

variable {σ Key Exchange Context Caller α : Type}

def start (callees : σ) (caller : Caller) : KemFrame σ Key Exchange Context Caller :=
  ⟨callees, caller, none, none, none, .replicate 70 0, [], []⟩

/-- The trace after a call that was to acquire a resource. -/
def noteAcquired (trace : List (ResourceEvent KemResource)) (resource : KemResource) :
    Option α → List (ResourceEvent KemResource)
  | none => trace
  | some _ => trace ++ [.acquired resource]

def callee (call : σ → α × σ) : Cleanup (KemFrame σ Key Exchange Context Caller) α :=
  lift fun frame =>
    let (result, callees) := call frame.callees
    (result, { frame with callees })

def acquireMlkemContext (call : σ → Option Context × σ) :
    Cleanup (KemFrame σ Key Exchange Context Caller) (Option Context) :=
  lift fun frame =>
    let (mlkemContext, callees) := call frame.callees
    (mlkemContext, { frame with
      callees, mlkemContext, trace := noteAcquired frame.trace .mlkemContext mlkemContext })

def acquireX301 (call : σ → Option Key × σ) :
    Cleanup (KemFrame σ Key Exchange Context Caller) (Option Key) :=
  lift fun frame =>
    let (x301, callees) := call frame.callees
    (x301, { frame with callees, x301, trace := noteAcquired frame.trace .x301Key x301 })

def acquireExchange (call : σ → Option Exchange × σ) :
    Cleanup (KemFrame σ Key Exchange Context Caller) (Option Exchange) :=
  lift fun frame =>
    let (exchange, callees) := call frame.callees
    (exchange, { frame with
      callees, exchange, trace := noteAcquired frame.trace .exchange exchange })

/-- A call that may change the X301 key of the frame. -/
def onX301 (call : σ → (ℤ × Key) × σ) : Cleanup (KemFrame σ Key Exchange Context Caller) (ℤ × Key) :=
  lift fun frame =>
    let ((status, x301), callees) := call frame.callees
    ((status, x301), { frame with callees, x301 := frame.x301.map fun _ => x301 })

/-- A call that may change the exchange of the frame. -/
def onExchange (call : σ → (ℤ × Exchange) × σ) :
    Cleanup (KemFrame σ Key Exchange Context Caller) (ℤ × Exchange) :=
  lift fun frame =>
    let ((status, exchange), callees) := call frame.callees
    ((status, exchange), { frame with callees, exchange := frame.exchange.map fun _ => exchange })

def storeSecret {a : ℕ} (offset : ℕ) (region : Bytes a) (h : offset + a ≤ 70 := by decide) :
    Cleanup (KemFrame σ Key Exchange Context Caller) Unit :=
  modify fun frame => { frame with temporarySecret := splice frame.temporarySecret offset region h }

def report (errors : List ProviderError) :
    Cleanup (KemFrame σ Key Exchange Context Caller) Unit :=
  modify fun frame => { frame with errors := frame.errors ++ errors }

/-- Raise the errors and jump unless the condition holds. -/
def requireOrRaise (condition : Bool) (errors : List ProviderError) :
    Cleanup (KemFrame σ Key Exchange Context Caller) Unit := do
  report (if condition then [] else errors)
  require condition

/-- Write the caller's memory from the secret. -/
def commit (write : Bytes 70 → Caller) : Cleanup (KemFrame σ Key Exchange Context Caller) Unit :=
  modify fun frame => { frame with caller := write frame.temporarySecret }

def release (frame : KemFrame σ Key Exchange Context Caller) (resource : KemResource)
    (object : Option α) (free : α → σ → σ) : KemFrame σ Key Exchange Context Caller :=
  match object with
  | none => frame
  | some object => { frame with
      callees := free object frame.callees, trace := frame.trace ++ [.released resource] }

def cleanup {Pkey : Type} (rust : RustApi σ Key Exchange) (mlkem : MlKemApi σ Pkey Context)
    (frame : KemFrame σ Key Exchange Context Caller) : KemFrame σ Key Exchange Context Caller :=
  let frame := frame.release .mlkemContext frame.mlkemContext mlkem.contextFree
  let frame := frame.release .exchange frame.exchange rust.exchangeFree
  let frame := frame.release .x301Key frame.x301 rust.keyFree
  { frame with temporarySecret := Rust.cleanse frame.temporarySecret }

end KemFrame

section Operations

open KemFrame

variable {σ Key Exchange Pkey Context Caller : Type} (rust : RustApi σ Key Exchange)
  (mlkem : MlKemApi σ Pkey Context)

/-- The body ran from the start of the frame to the label; its result is the status. -/
def runToCleanup (body : Cleanup (KemFrame σ Key Exchange Context Caller) Unit) (caller : Caller)
    (s : σ) : KemOutcome σ Caller :=
  let (returned, frame) := body (.start s caller)
  let frame := frame.cleanup rust mlkem
  { status := if returned.isSome then 1 else 0
    caller := frame.caller
    callees := frame.callees
    errors := frame.errors
    epilogue := some ⟨frame.temporarySecret, frame.trace⟩ }

def encapsulateMlkem (provider : ProviderContext) (pkey : Option Pkey) :
    Cleanup (KemFrame σ Key Exchange Context Caller) (Bytes 1568) := do
  let mlkemContext ← acquireMlkemContext (mlkem.contextNewFromPkey provider pkey)
  let mlkemContext ← present mlkemContext
  let status ← callee (mlkem.encapsulateInit mlkemContext)
  require (0 < status)
  let result ← callee
    (mlkem.encapsulate mlkemContext (.replicate 1568 0) 1568 (.replicate 32 0) 32)
  storeSecret 0 result.secret
  require (0 < result.status)
  requireOrRaise (result.ciphertextLength == 1568 && result.secretLength == 32)
    (raise provider .internalError "unexpected ML-KEM-1024 encapsulation output length")
  pure result.ciphertext

/-- The X301 half of `hybrid_encapsulate`: an exchange between a fresh key and the peer. -/
def encapsulateX301 (provider : ProviderContext) (peer : Option Key) :
    Cleanup (KemFrame σ Key Exchange Context Caller) (Bytes 38) := do
  let failed := raise provider .internalError "X301MLKEM1024 X301 encapsulation failed"
  let serverX301 ← acquireX301 (generateRawKey rust provider)
  report (rawKeyErrors provider serverX301)
  let exchange ← acquireExchange rust.exchangeNew
  let serverX301 ← present serverX301
  requireOrRaise exchange.isSome
    (raise provider .allocationFailure "X301MLKEM1024 exchange-context allocation failed")
  let exchange ← present exchange
  let (status, encoded) ← callee (rust.keyGetPublic (some serverX301) (.replicate 38 0))
  requireOrRaise (status == 1) failed
  let (status, exchange) ← onExchange (rust.exchangeInit exchange (some serverX301))
  requireOrRaise (status == 1) failed
  let (status, exchange) ← onExchange (rust.exchangeSetPeer exchange peer)
  requireOrRaise (status == 1) failed
  let (status, shared) ← callee (rust.exchangeDerive exchange (.replicate 38 0))
  storeSecret 32 shared
  requireOrRaise (status == 1) failed
  pure encoded

def encapsulateBody (provider : ProviderContext) (key : HybridKey Key Pkey)
    (ciphertext sharedSecret : List UInt8) :
    Cleanup (KemFrame σ Key Exchange Context EncapsulateOutput) Unit := do
  let mlkemCiphertext ← encapsulateMlkem mlkem provider key.mlkem
  let encoded ← encapsulateX301 rust provider key.x301
  let temporaryCiphertext :=
    splice (splice (.replicate 1606 0) 0 mlkemCiphertext mlkemPart_le) 1568 encoded x301Part_le
  commit fun temporarySecret =>
    ⟨⟨some (memcpy ciphertext temporaryCiphertext), some 1606⟩,
      ⟨some (memcpy sharedSecret temporarySecret), some 70⟩⟩

def hybridEncapsulate (context : Option (HybridKemContext (HybridKey Key Pkey)))
    (output : EncapsulateOutput) (s : σ) : KemOutcome σ EncapsulateOutput :=
  match context with
  | none => .early 0 output s []
  | some context =>
    match context.provider with
    | none => .early 0 output s []
    | some provider =>
      match context.operation, context.key with
      | .kemEncapsulate, some key =>
        match output.ciphertext.memory with
        | none =>
          if output.ciphertext.length.isNone && output.sharedSecret.length.isNone then
            .early 0 output s (raise provider .invalidParameter
              "X301MLKEM1024 encapsulation length output is missing")
          else .early 1 output.setLengths s []
        | some ciphertext =>
          match output.ciphertext.length, output.sharedSecret.memory,
            output.sharedSecret.length with
          | some ciphertextLength, some sharedSecret, some sharedSecretLength =>
            if ciphertextLength < 1606 || sharedSecretLength < 70 then
              .early 0 output.setLengths s (raise provider .invalidParameter
                "X301MLKEM1024 encapsulation output buffer is too small")
            else
              runToCleanup rust mlkem (encapsulateBody rust mlkem provider key ciphertext
                sharedSecret) output s
          | _, _, _ => .early 0 output s (raise provider .invalidParameter
              "invalid X301MLKEM1024 encapsulation output")
      | _, _ => .early 0 output s (raise provider .invalidState
          "X301MLKEM1024 encapsulation is not initialized")

def decapsulateMlkem (provider : ProviderContext) (pkey : Option Pkey) (ciphertext : Bytes 1568) :
    Cleanup (KemFrame σ Key Exchange Context Caller) Unit := do
  let mlkemContext ← acquireMlkemContext (mlkem.contextNewFromPkey provider pkey)
  let mlkemContext ← present mlkemContext
  let status ← callee (mlkem.decapsulateInit mlkemContext)
  require (0 < status)
  let result ← callee (mlkem.decapsulate mlkemContext (.replicate 32 0) 32 ciphertext)
  storeSecret 0 result.secret
  require (0 < result.status)
  requireOrRaise (result.secretLength == 32)
    (raise provider .internalError "unexpected ML-KEM-1024 decapsulation output length")

/-- The X301 half of `hybrid_decapsulate`: an exchange between the own key and the encoded peer. -/
def decapsulateX301 (provider : ProviderContext) (own : Option Key) (encoded : Bytes 38) :
    Cleanup (KemFrame σ Key Exchange Context Caller) Unit := do
  let failed := raise provider .invalidKey "invalid X301 component in X301MLKEM1024 ciphertext"
  let peerX301 ← acquireX301 rust.keyNew
  let exchange ← acquireExchange rust.exchangeNew
  requireOrRaise (peerX301.isSome && exchange.isSome)
    (raise provider .allocationFailure "X301MLKEM1024 decapsulation-context allocation failed")
  let peerX301 ← present peerX301
  let exchange ← present exchange
  let (status, peerX301) ← onX301 (rust.keySetEncodedPublic peerX301 encoded)
  requireOrRaise (status == 1) failed
  let (status, exchange) ← onExchange (rust.exchangeInit exchange own)
  requireOrRaise (status == 1) failed
  let (status, exchange) ← onExchange (rust.exchangeSetPeer exchange (some peerX301))
  requireOrRaise (status == 1) failed
  let (status, shared) ← callee (rust.exchangeDerive exchange (.replicate 38 0))
  storeSecret 32 shared
  requireOrRaise (status == 1) failed

def decapsulateBody (provider : ProviderContext) (key : HybridKey Key Pkey)
    (ciphertext : Bytes 1606) (sharedSecret : List UInt8) :
    Cleanup (KemFrame σ Key Exchange Context OutputBuffer) Unit := do
  decapsulateMlkem mlkem provider key.mlkem (slice ciphertext 0 1568 mlkemPart_le)
  decapsulateX301 rust provider key.x301 (slice ciphertext 1568 38 x301Part_le)
  commit fun temporarySecret => ⟨some (memcpy sharedSecret temporarySecret), some 70⟩

def hybridDecapsulate (context : Option (HybridKemContext (HybridKey Key Pkey)))
    (output : OutputBuffer) (ciphertext : ByteInput) (s : σ) : KemOutcome σ OutputBuffer :=
  match context with
  | none => .early 0 output s []
  | some context =>
    match context.provider with
    | none => .early 0 output s []
    | some provider =>
      match context.operation, context.key with
      | .kemDecapsulate, some key =>
        match output.memory with
        | none =>
          if output.length.isNone then
            .early 0 output s (raise provider .invalidParameter
              "X301MLKEM1024 decapsulation length output is missing")
          else .early 1 (output.setLength 70) s []
        | some sharedSecret =>
          let invalid := KemOutcome.early 0 output s (raise provider .invalidParameter
            "invalid X301MLKEM1024 decapsulation input")
          match output.length, ciphertext with
          | some sharedSecretLength, .bytes region =>
            match toArray 1606 region with
            | none => invalid
            | some ciphertext =>
              if sharedSecretLength < 70 then
                .early 0 (output.setLength 70) s (raise provider .invalidParameter
                  "X301MLKEM1024 decapsulation output buffer is too small")
              else
                runToCleanup rust mlkem (decapsulateBody rust mlkem provider key ciphertext
                  sharedSecret) output s
          | _, _ => invalid
      | _, _ => .early 0 output s (raise provider .invalidState
          "X301MLKEM1024 decapsulation is not initialized")

end Operations

end X301Provider
