import X301Provider.Hybrid.Callees
import X301Provider.Library.ByteRegion
import X301Provider.Provider.Shim

/-!
# Hybrid keys

The key-management half of the adapter: an empty key is filled once, either by
generation or by an encoded public key, and each way builds two components that
can fail on their own.
-/

namespace X301Provider

open Limbs ByteRegion

inductive KeyState
  | keyEmpty
  | keyPublic
  | keyPrivate
  deriving DecidableEq

/-- `state >= KEY_PUBLIC`. -/
def KeyState.atLeastPublic : KeyState → Bool
  | .keyEmpty => false
  | .keyPublic | .keyPrivate => true

inductive KemOperation
  | kemNone
  | kemEncapsulate
  | kemDecapsulate
  deriving DecidableEq

structure HybridKey (Key Pkey : Type) where
  provider : Option ProviderContext
  x301 : Option Key
  mlkem : Option Pkey
  state : KeyState

structure HybridGenContext where
  provider : Option ProviderContext
  keypair : Bool

/-- `Ref` is what stands behind the key pointer: a handle, or the key itself. -/
structure HybridKemContext (Ref : Type) where
  provider : Option ProviderContext
  key : Option Ref
  operation : KemOperation

def bitsName : String := "bits"
def securityBitsName : String := "security-bits"
def maxSizeName : String := "max-size"

/-- The setters of libcrypto; a value that fits is copied to the front of the caller's buffer. -/
class ParamSetters where
  setInt : OsslParam → ℤ → ℤ × OsslParam
  setOctetString : OsslParam → List UInt8 → ℤ × OsslParam
  setOctetString_eq : ∀ param region value, param.dataType = .octetString →
    param.data = .bytes region → value.length ≤ region.length →
    setOctetString param value = (1, { param with
      data := .bytes (value ++ region.drop value.length)
      returnSize := some value.length })

/-- Setters that write wherever the type fits. -/
@[reducible] def ParamSetters.inPlace : ParamSetters where
  setInt param _ := (if param.dataType = .integer then 1 else 0, param)
  setOctetString param value :=
    match param.dataType, param.data with
    | .octetString, .bytes region =>
      if value.length ≤ region.length then (1, { param with
        data := .bytes (value ++ region.drop value.length)
        returnSize := some value.length })
      else (0, { param with returnSize := some value.length })
    | .octetString, .null _ => (1, { param with returnSize := some value.length })
    | _, _ => (0, param)
  setOctetString_eq := by
    intro param region value hType hData hLength
    simp only [hType, hData, if_pos hLength]

/-- Whether the parameter was absent or set, and the parameter as it was left. -/
def setOptional (param : Option OsslParam) (set : OsslParam → ℤ × OsslParam) :
    Bool × List OsslParam :=
  match param with
  | none => (true, [])
  | some param =>
    let (status, param) := set param
    (status == 1, [param])

def setOptionalInts [Libcrypto] [ParamSetters] (params : List OsslParam) :
    List (String × ℤ) → Bool × List OsslParam
  | [] => (true, [])
  | (name, value) :: rest =>
    match setOptional (Libcrypto.locate params name) fun param =>
      ParamSetters.setInt param value with
    | (false, written) => (false, written)
    | (true, written) =>
      let (set, later) := setOptionalInts params rest
      (set, written ++ later)

/-- The integers of `hybrid_key_get_params`, in the order in which they are set. -/
def hybridIntParams : List (String × ℤ) :=
  [(bitsName, 1024), (securityBitsName, 256), (maxSizeName, 1606)]

section Operations

variable {σ Key Exchange Pkey Context Ref : Type} (rust : RustApi σ Key Exchange)
  (mlkem : MlKemApi σ Pkey Context)

def freeKey (key : Option Key) (s : σ) : σ :=
  match key with
  | none => s
  | some key => rust.keyFree key s

def rawKeyErrors (provider : ProviderContext) : Option Key → List ProviderError
  | none => raise provider .randomFailure "OpenSSL private RAND or X301 key generation failed"
  | some _ => []

def raiseMaybe (provider : Option ProviderContext) (reason : Reason) (text : String) :
    List ProviderError :=
  match provider with
  | none => []
  | some provider => raise provider reason text

/-- `hybrid_alloc` fails without a provider. -/
def hybridAllocates (provider : Option ProviderContext) (outcome : Bool) : Bool :=
  provider.any fun provider => provider.allocates outcome

def hybridKeyNew (provider : Option ProviderContext) (allocates : Bool) :
    Reported (Option (HybridKey Key Pkey)) :=
  if hybridAllocates provider allocates then ⟨some ⟨provider, none, none, .keyEmpty⟩, []⟩
  else ⟨none, raiseMaybe provider .allocationFailure "X301MLKEM1024 key allocation failed"⟩

def hybridKeyFree (key : Option (HybridKey Key Pkey)) (s : σ) : σ :=
  match key with
  | none => s
  | some key =>
    let s := if key.provider.any ProviderContext.hasRust then freeKey rust key.x301 s else s
    freePkey mlkem key.mlkem s

def hybridKeyHas (key : Option (HybridKey Key Pkey)) (selection : Selection) : ℤ :=
  match key with
  | none => 0
  | some key =>
    if wantsPrivate selection && key.state != .keyPrivate then 0
    else if wantsPublic selection && !key.state.atLeastPublic then 0
    else 1

/-- The two parts of an encoding lie within it. -/
theorem mlkemPart_le : 0 + 1568 ≤ 1606 := by decide
theorem x301Part_le : 1568 + 38 ≤ 1606 := by decide

/-- The status, and the parameters that were located as the call leaves them; `stack` is what the
local buffer holds before it is written. -/
def hybridKeyGetParams [Libcrypto] [ParamSetters] (key : Option (HybridKey Key Pkey))
    (params : ParamArray) (stack : Bytes 1606) (s : σ) : Reported (ℤ × List OsslParam) × σ :=
  match key with
  | none => (⟨(0, []), []⟩, s)
  | some key =>
    match key.provider with
    | none => (⟨(0, []), []⟩, s)
    | some provider =>
      let invalid (written : List OsslParam) : Reported (ℤ × List OsslParam) :=
        ⟨(0, written),
          raise provider .invalidParameter "invalid X301MLKEM1024 key parameter query"⟩
      match params with
      | none => (invalid [], s)
      | some params =>
        match setOptionalInts params hybridIntParams with
        | (false, written) => (invalid written, s)
        | (true, written) =>
          match Libcrypto.locate params encodedPublicKeyName with
          | none => (⟨(1, written), []⟩, s)
          | some encoded =>
            let unavailable : Reported (ℤ × List OsslParam) := ⟨(0, written),
              raise provider .invalidKey "X301MLKEM1024 public key is unavailable"⟩
            if !key.state.atLeastPublic then (unavailable, s)
            else
              let ((read, mlkemPublic), s) :=
                mlkemGetPublic mlkem key.mlkem (slice stack 0 1568 mlkemPart_le) s
              if !read then (unavailable, s)
              else
                let ((status, x301Public), s) :=
                  rust.keyGetPublic key.x301 (slice stack 1568 38 x301Part_le) s
                if status ≠ 1 then (unavailable, s)
                else
                  match setOptional (some encoded) fun param =>
                    ParamSetters.setOctetString param (concat mlkemPublic x301Public).1 with
                  | (true, last) => (⟨(1, written ++ last), []⟩, s)
                  | (false, last) => (⟨(0, written ++ last), raise provider .invalidParameter
                      "invalid X301MLKEM1024 encoded-public-key output parameter"⟩, s)

/-- The part of `hybrid_key_set_params` after the parameter was read: both components are built
before either is checked. -/
def setPublicComponents (provider : ProviderContext) (key : HybridKey Key Pkey)
    (encoded : Bytes 1606) (s : σ) : Reported (ℤ × Option (HybridKey Key Pkey)) × σ :=
  let (pkey, s) := mlkemImportPublic mlkem provider (slice encoded 0 1568 mlkemPart_le) s
  let (x301, s) := rust.keyNew s
  match pkey, x301 with
  | none, x301 => (⟨(0, some key), []⟩, freeKey rust x301 s)
  | some pkey, none => (⟨(0, some key), raise provider .allocationFailure
      "X301MLKEM1024 X301 key allocation failed"⟩, mlkem.pkeyFree pkey s)
  | some pkey, some x301 =>
    let ((status, x301), s) := rust.keySetEncodedPublic x301 (slice encoded 1568 38 x301Part_le) s
    if status ≠ 1 then (⟨(0, some key), raise provider .invalidKey
      "invalid X301 component in X301MLKEM1024 public key"⟩,
        rust.keyFree x301 (mlkem.pkeyFree pkey s))
    else
      (⟨(1, some { key with x301 := some x301, mlkem := some pkey, state := .keyPublic }), []⟩, s)

def hybridKeySetParams [Libcrypto] (key : Option (HybridKey Key Pkey)) (params : ParamArray)
    (s : σ) : Reported (ℤ × Option (HybridKey Key Pkey)) × σ :=
  match key with
  | none => (⟨(0, none), []⟩, s)
  | some key =>
    match key.provider with
    | none => (⟨(0, some key), []⟩, s)
    | some provider =>
      let invalid : Reported (ℤ × Option (HybridKey Key Pkey)) := ⟨(0, some key),
        raise provider .invalidParameter "invalid X301MLKEM1024 encoded public key parameter"⟩
      if !provider.hasRust then (⟨(0, some key), []⟩, s)
      else if key.state ≠ .keyEmpty then (invalid, s)
      else
        match getStrictOctetString params encodedPublicKeyName 1606 false with
        | none => (invalid, s)
        | some (.null _) => (⟨(1, some key), []⟩, s)
        | some (.bytes region) =>
          -- the strict accessor has checked the length
          match toArray 1606 region with
          | none => (invalid, s)
          | some encoded => setPublicComponents rust mlkem provider key encoded s

def hybridGen (generation : Option HybridGenContext) (allocates : Bool) (s : σ) :
    Reported (Option (HybridKey Key Pkey)) × σ :=
  match generation with
  | none => (⟨none, []⟩, s)
  | some generation =>
    match generation.provider with
    | none => (⟨none, []⟩, s)
    | some provider =>
      match hybridKeyNew (some provider) allocates with
      | ⟨none, errors⟩ => (⟨none, errors⟩, s)
      | ⟨some key, errors⟩ =>
        if !generation.keypair then (⟨some key, errors⟩, s)
        else
          let (x301, s) := generateRawKey rust provider s
          let errors := errors ++ rawKeyErrors provider x301
          let (pkey, s) := mlkem.qKeygen provider s
          let key : HybridKey Key Pkey := { key with x301 := x301, mlkem := pkey }
          if x301.isNone || pkey.isNone then
            (⟨none, errors⟩, hybridKeyFree rust mlkem (some key) s)
          else (⟨some { key with state := .keyPrivate }, errors⟩, s)

def hybridKemNew (provider : Option ProviderContext) (allocates : Bool) :
    Reported (Option (HybridKemContext Ref)) :=
  if hybridAllocates provider allocates then ⟨some ⟨provider, none, .kemNone⟩, []⟩
  else ⟨none, raiseMaybe provider .allocationFailure "X301MLKEM1024 KEM-context allocation failed"⟩

/-- Whether a key has what the operation needs. -/
def KemOperation.suits (operation : KemOperation) (state : KeyState) : Bool :=
  match operation with
  | .kemNone => true
  | .kemEncapsulate => state.atLeastPublic
  | .kemDecapsulate => state == .keyPrivate

/-- The key is given as a pointer with the key behind it. -/
def hybridKemInit (context : Option (HybridKemContext Ref))
    (key : Option (Ref × HybridKey Key Pkey)) (params : ParamArray) (operation : KemOperation) :
    Reported (ℤ × Option (HybridKemContext Ref)) :=
  match context with
  | none => ⟨(0, none), []⟩
  | some context =>
    match context.provider with
    | none => ⟨(0, some context), []⟩
    | some provider =>
      let invalidKey : Reported (ℤ × Option (HybridKemContext Ref)) :=
        ⟨(0, some context), raise provider .invalidKey "invalid X301MLKEM1024 KEM key"⟩
      if !paramsAreEmpty params then
        ⟨(0, some context),
          raise provider .invalidParameter "X301MLKEM1024 KEM parameters are unsupported"⟩
      else
        match key with
        | none => invalidKey
        | some (pointer, key) =>
          if !Shim.sameProvider key.provider context.provider || !operation.suits key.state then
            invalidKey
          else ⟨(1, some { context with key := some pointer, operation }), []⟩

def hybridEncapsulateInit (context : Option (HybridKemContext Ref))
    (key : Option (Ref × HybridKey Key Pkey)) (params : ParamArray) :
    Reported (ℤ × Option (HybridKemContext Ref)) :=
  hybridKemInit context key params .kemEncapsulate

def hybridDecapsulateInit (context : Option (HybridKemContext Ref))
    (key : Option (Ref × HybridKey Key Pkey)) (params : ParamArray) :
    Reported (ℤ × Option (HybridKemContext Ref)) :=
  hybridKemInit context key params .kemDecapsulate

end Operations

end X301Provider
