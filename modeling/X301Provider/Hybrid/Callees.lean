import X301Provider.Provider.OsslParam

/-!
# What the hybrid adapter calls

The entries of the Rust function table and the EVP operations on ML-KEM-1024, as
functions on the state `σ` of everything outside the adapter. A callee that is
given an array returns the array it leaves there, so it writes inside the length
it was given; statuses, lengths and contents are otherwise its own.
-/

namespace X301Provider

structure RustApi (σ Key Exchange : Type) where
  keyNew : σ → Option Key × σ
  keyFree : Key → σ → σ
  keyGenerate : ProviderContext → σ → Option Key × σ
  keySetEncodedPublic : Key → Bytes 38 → σ → (ℤ × Key) × σ
  keyGetPublic : Option Key → Bytes 38 → σ → (ℤ × Bytes 38) × σ
  exchangeNew : σ → Option Exchange × σ
  exchangeFree : Exchange → σ → σ
  exchangeInit : Exchange → Option Key → σ → (ℤ × Exchange) × σ
  exchangeSetPeer : Exchange → Option Key → σ → (ℤ × Exchange) × σ
  exchangeDerive : Exchange → Bytes 38 → σ → (ℤ × Bytes 38) × σ

structure EncapsulateResult where
  status : ℤ
  ciphertext : Bytes 1568
  ciphertextLength : ℕ
  secret : Bytes 32
  secretLength : ℕ

structure DecapsulateResult where
  status : ℤ
  secret : Bytes 32
  secretLength : ℕ

structure GetPublicResult where
  status : ℤ
  output : Bytes 1568
  length : ℕ

/-- The EVP operations; the material of a key does not depend on the state outside. -/
structure MlKemApi (σ Pkey Context : Type) where
  contextNewFromPkey : ProviderContext → Option Pkey → σ → Option Context × σ
  contextNewFromName : ProviderContext → σ → Option Context × σ
  contextFree : Context → σ → σ
  pkeyFree : Pkey → σ → σ
  encapsulateInit : Context → σ → ℤ × σ
  encapsulate : Context → Bytes 1568 → ℕ → Bytes 32 → ℕ → σ → EncapsulateResult × σ
  decapsulateInit : Context → σ → ℤ × σ
  decapsulate : Context → Bytes 32 → ℕ → Bytes 1568 → σ → DecapsulateResult × σ
  fromdataInit : Context → σ → ℤ × σ
  fromdata : Context → Bytes 1568 → σ → (ℤ × Option Pkey) × σ
  getPublic : Pkey → Bytes 1568 → σ → GetPublicResult × σ
  qKeygen : ProviderContext → σ → Option Pkey × σ

/-- What the Rust functions meet at run time: a panic on entry, which the boundary turns into a
failure, the allocator, and the random callback of the shim. -/
structure Runtime (σ : Type) where
  panics : String → σ → Bool × σ
  allocates : String → σ → Bool × σ
  fillRandom : ProviderContext → σ → (ℤ × Bytes 38) × σ

structure Runtime.NeverFails {σ : Type} (runtime : Runtime σ) : Prop where
  panics : ∀ name s, (runtime.panics name s).1 = false
  allocates : ∀ site s, (runtime.allocates site s).1 = true

namespace Runtime

variable {σ : Type} (runtime : Runtime σ)

def newObject {α : Type} (site : String) (build : Bool → Option α) (s : σ) : Option α × σ :=
  match runtime.panics site s with
  | (true, s) => (none, s)
  | (false, s) =>
    let (allocates, s) := runtime.allocates site s
    (build allocates, s)

/-- A call that answers with a status; on a panic its object stays as it was. -/
def guarded {α : Type} (name : String) (object : α) (operation : ℤ × Option α) (s : σ) :
    (ℤ × α) × σ :=
  match runtime.panics name s with
  | (true, s) => ((0, object), s)
  | (false, s) => ((operation.1, operation.2.getD object), s)

/-- The function table over the Rust-owned objects. -/
def rustApi [ModularInverse] : RustApi σ X301Key X301Exchange where
  keyNew := runtime.newObject "key_new" Rust.keyNew
  keyFree _ s := s
  keyGenerate provider s :=
    match runtime.panics "key_generate" s with
    | (true, s) => (none, s)
    | (false, s) =>
      let ((status, secret), s) := runtime.fillRandom provider s
      let (allocates, s) := if status = 1 then runtime.allocates "key_generate" s else (false, s)
      (Rust.keyGenerate (some fun _ => (status, secret)) allocates, s)
  keySetEncodedPublic key encoded := runtime.guarded "key_set_encoded_public" key
    (Rust.keySetEncodedPublic (some key) (.bytes encoded.1))
  keyGetPublic key output s :=
    let (status, written) := Rust.keyGetPublic key (some output)
    ((status, written.getD output), s)
  exchangeNew := runtime.newObject "exchange_new" Rust.exchangeNew
  exchangeFree _ s := s
  exchangeInit exchange key :=
    runtime.guarded "exchange_init" exchange (Rust.exchangeInit (some exchange) key)
  exchangeSetPeer exchange peer :=
    runtime.guarded "exchange_set_peer" exchange (Rust.exchangeSetPeer (some exchange) peer)
  exchangeDerive exchange output :=
    runtime.guarded "exchange_derive" output (Rust.exchangeDerive (some exchange) (some output))

end Runtime

section Operations

variable {σ Key Exchange Pkey Context : Type}

/-- `x301_generate_raw_key_internal`. -/
def generateRawKey (rust : RustApi σ Key Exchange) (provider : ProviderContext) (s : σ) :
    Option Key × σ :=
  if !provider.hasRust || !provider.hasLibctx then (none, s) else rust.keyGenerate provider s

def freePkey (mlkem : MlKemApi σ Pkey Context) (pkey : Option Pkey) (s : σ) : σ :=
  match pkey with
  | none => s
  | some pkey => mlkem.pkeyFree pkey s

def mlkemImportPublic (mlkem : MlKemApi σ Pkey Context) (provider : ProviderContext)
    (publicKey : Bytes 1568) (s : σ) : Option Pkey × σ :=
  if !provider.hasLibctx then (none, s)
  else
    match mlkem.contextNewFromName provider s with
    | (none, s) => (none, s)
    | (some context, s) =>
      let (status, s) := mlkem.fromdataInit context s
      if status ≤ 0 then (none, mlkem.contextFree context s)
      else
        let ((status, key), s) := mlkem.fromdata context publicKey s
        if status ≤ 0 then (none, mlkem.contextFree context (freePkey mlkem key s))
        else (key, mlkem.contextFree context s)

/-- Whether the public key was read, and the array it was read into. -/
def mlkemGetPublic (mlkem : MlKemApi σ Pkey Context) (key : Option Pkey) (output : Bytes 1568)
    (s : σ) : (Bool × Bytes 1568) × σ :=
  match key with
  | none => ((false, output), s)
  | some key =>
    let (result, s) := mlkem.getPublic key output s
    ((0 < result.status && result.length == 1568, result.output), s)

end Operations

end X301Provider
