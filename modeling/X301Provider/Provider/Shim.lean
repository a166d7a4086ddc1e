import X301Provider.Provider.OsslParam

/-!
# The provider shim

Key and exchange wrappers around the Rust objects: allocation, import and
export of parameter arrays, and the exchange operations with their checks on
providers, null pointers and output lengths.
-/

namespace X301Provider

open Limbs

/-- `x301_key_st`. -/
structure KeyObject where
  provider : Option ProviderContext
  inner : Option X301Key
  deriving DecidableEq

/-- `x301_exchange_st`. -/
structure ExchangeObject where
  provider : Option ProviderContext
  inner : Option X301Exchange
  deriving DecidableEq

namespace Shim

/-- Wrap a Rust object; both wrappers have this shape. -/
def wrap {Inner Object : Type} (provider : Option ProviderContext) (inner : Option Inner)
    (build : ProviderContext → Inner → Object) (zallocates : Bool) (failure : String) :
    Reported (Option Object) :=
  match provider, inner with
  | some provider, some inner =>
    if !provider.hasRust then ⟨none, []⟩
    else if provider.allocates zallocates then ⟨some (build provider inner), []⟩
    else ⟨none, raise provider .allocationFailure failure⟩
  | _, _ => ⟨none, []⟩

def wrapKey (provider : Option ProviderContext) (inner : Option X301Key) (zallocates : Bool) :
    Reported (Option KeyObject) :=
  wrap provider inner (fun provider inner => ⟨some provider, some inner⟩) zallocates
    "X301 key wrapper allocation failed"

def wrapExchange (provider : Option ProviderContext) (inner : Option X301Exchange)
    (zallocates : Bool) : Reported (Option ExchangeObject) :=
  wrap provider inner (fun provider inner => ⟨some provider, some inner⟩) zallocates
    "X301 exchange-context allocation failed"

def x301KeyNew (provider : Option ProviderContext) (rustAllocates zallocates : Bool) :
    Reported (Option KeyObject) :=
  match provider with
  | none => ⟨none, []⟩
  | some provider =>
    if !provider.hasRust then ⟨none, []⟩
    else
      match Rust.keyNew rustAllocates with
      | none => ⟨none, raise provider .allocationFailure "X301 key allocation failed"⟩
      | some inner => wrapKey provider inner zallocates

/-- The value and length of a component that the selection asks for. -/
def importComponent [Libcrypto] (params : ParamArray) (name : String) (wanted other : Bool) :
    Option ByteInput :=
  if wanted then getStrictOctetString params name 38 (wanted && !other) else some (.null 0)

def x301KeyImport [ModularInverse] [Libcrypto] (key : Option KeyObject) (selection : Selection)
    (params : ParamArray) : Reported (ℤ × Option KeyObject) :=
  match key with
  | some ⟨some provider, some inner⟩ =>
    let key : KeyObject := ⟨some provider, some inner⟩
    if params.isNone || !selectionSupported selection ||
        (!wantsPrivate selection && !wantsPublic selection) then ⟨(0, some key), []⟩
    else
      let invalid := raise provider .invalidKey "invalid X301 key material"
      match importComponent params privKeyName (wantsPrivate selection) (wantsPublic selection) with
      | none => ⟨(0, some key), invalid⟩
      | some privateKey =>
        match importComponent params pubKeyName (wantsPublic selection)
          (wantsPrivate selection) with
        | none => ⟨(0, some key), invalid⟩
        | some publicKey =>
          if (privateKey.isNull && publicKey.isNull) ||
              (wantsPrivate selection && !wantsPublic selection && privateKey.isNull) ||
              (wantsPublic selection && !wantsPrivate selection && publicKey.isNull) then
            ⟨(0, some key), invalid⟩
          else
            let (status, inner) := Rust.keyImport (some inner)
              (if wantsPrivate selection then privateKey else .null 0)
              (if wantsPublic selection then publicKey else .null 0)
            let key : KeyObject := ⟨some provider, inner⟩
            if status ≠ 1 then ⟨(0, some key), invalid⟩ else ⟨(1, some key), []⟩
  | key => ⟨(0, key), []⟩

def octetStringParam (name : String) (value : Bytes 38) : OsslParam :=
  ⟨name, .octetString, .bytes value.1, none⟩

/-- The parameter of a component that is wanted and present; the outer option is the error. -/
def exportComponent (name : String) (wanted : Bool) (has : ℤ)
    (read : Option (Bytes 38) → ℤ × Option (Bytes 38)) : Option (List OsslParam) :=
  if wanted && has == 1 then
    match read (some (.replicate 38 0)) with
    | (1, some buffer) => some [octetStringParam name buffer]
    | _ => none
  else some []

def exportParams (inner : X301Key) (selection : Selection) : Option (List OsslParam) :=
  match exportComponent privKeyName (wantsPrivate selection) (Rust.keyHas inner 1 0)
    (Rust.keyGetPrivate inner) with
  | none => none
  | some privateParams =>
    match exportComponent pubKeyName (wantsPublic selection) (Rust.keyHas inner 0 1)
      (Rust.keyGetPublic inner) with
    | none => none
    | some publicParams =>
      if (privateParams ++ publicParams).isEmpty then none else some (privateParams ++ publicParams)

/-- The status, and the parameters passed to the callback if it was called. -/
def x301KeyExport (key : Option KeyObject) (selection : Selection)
    (callback : Option (List OsslParam → ℤ)) : Reported (ℤ × ParamArray) :=
  match key with
  | none => ⟨(0, none), []⟩
  | some key =>
    let failed (params : ParamArray) : Reported (ℤ × ParamArray) :=
      ⟨(0, params), match key.provider with
        | none => []
        | some provider => raise provider .invalidKey "X301 key export failed"⟩
    match key.provider, key.inner, callback with
    | some _, some inner, some callback =>
      if !selectionSupported selection ||
          (!wantsPrivate selection && !wantsPublic selection) then failed none
      else
        match exportParams inner selection with
        | none => failed none
        | some params => if callback params = 1 then ⟨(1, some params), []⟩ else failed (some params)
    | _, _, _ => failed none

def x301KeySetParams [ModularInverse] [Libcrypto] (key : Option KeyObject) (params : ParamArray) :
    Reported (ℤ × Option KeyObject) :=
  match key with
  | some ⟨some provider, some inner⟩ =>
    let key : KeyObject := ⟨some provider, some inner⟩
    if (params.bind fun params => Libcrypto.locate params encodedPublicKeyName).isNone then
      ⟨(1, some key), []⟩
    else
      let invalid := raise provider .invalidKey "invalid X301 encoded public key"
      match getStrictOctetString params encodedPublicKeyName 38 true with
      | none => ⟨(0, some key), invalid⟩
      | some publicKey =>
        let (status, inner) := Rust.keySetEncodedPublic (some inner) publicKey
        let key : KeyObject := ⟨some provider, inner⟩
        if status ≠ 1 then ⟨(0, some key), invalid⟩ else ⟨(1, some key), []⟩
  | key => ⟨(0, key), []⟩

def x301ExchangeNew (provider : Option ProviderContext) (rustAllocates zallocates : Bool) :
    Reported (Option ExchangeObject) :=
  match provider with
  | none => ⟨none, []⟩
  | some provider =>
    if !provider.hasRust then ⟨none, []⟩
    else
      match Rust.exchangeNew rustAllocates with
      | none => ⟨none, raise provider .allocationFailure "X301 exchange-context allocation failed"⟩
      | some inner => wrapExchange provider inner zallocates

def x301ExchangeDuplicate (source : Option ExchangeObject) (rustAllocates zallocates : Bool) :
    Reported (Option ExchangeObject) :=
  match source with
  | some ⟨some provider, some inner⟩ =>
    match Rust.exchangeDuplicate inner rustAllocates with
    | none => ⟨none, raise provider .allocationFailure "X301 exchange-context duplication failed"⟩
    | some inner => wrapExchange provider inner zallocates
  | _ => ⟨none, []⟩

/-- Pointer comparison of two non-null provider contexts. -/
def sameProvider (first second : Option ProviderContext) : Bool :=
  first.map ProviderContext.address == second.map ProviderContext.address

/-- The part that `x301_exchange_init` and `x301_exchange_set_peer` share. -/
def captureKey (exchange : Option ExchangeObject) (key : Option KeyObject)
    (operation : Option X301Exchange → Option X301Key → ℤ × Option X301Exchange)
    (failure : String) : Reported (ℤ × Option ExchangeObject) :=
  match exchange, key with
  | some ⟨some provider, some inner⟩, some ⟨keyProvider, some keyInner⟩ =>
    if !sameProvider (some provider) keyProvider then
      ⟨(0, some ⟨some provider, some inner⟩), []⟩
    else
      let (status, inner) := operation (some inner) (some keyInner)
      ⟨(status, some ⟨some provider, inner⟩),
        if status ≠ 1 then raise provider .invalidKey failure else []⟩
  | exchange, _ => ⟨(0, exchange), []⟩

def x301ExchangeInit (exchange : Option ExchangeObject) (key : Option KeyObject)
    (params : ParamArray) : Reported (ℤ × Option ExchangeObject) :=
  if paramsAreEmpty params then
    captureKey exchange key Rust.exchangeInit "X301 exchange requires a private key"
  else ⟨(0, exchange), []⟩

def x301ExchangeSetPeer (exchange : Option ExchangeObject) (peer : Option KeyObject) :
    Reported (ℤ × Option ExchangeObject) :=
  captureKey exchange peer Rust.exchangeSetPeer "invalid X301 peer key"

/-- The caller's memory after a derivation. -/
structure DeriveOutput (n : ℕ) where
  status : ℤ
  secret : Option (Bytes n)
  secretLength : Option ℕ

/-- The output length is the length of the region behind a non-null `secret`. -/
def x301ExchangeDerive [ModularInverse] {n : ℕ} (exchange : Option ExchangeObject)
    (secret : Option (Bytes n)) (secretLength : Option ℕ) : Reported (DeriveOutput n) :=
  match exchange, secretLength with
  | some ⟨some provider, some inner⟩, some _ =>
    match secret with
    | none => ⟨⟨1, none, some 38⟩, []⟩
    | some secret =>
      if h : n < 38 then
        ⟨⟨0, some secret, some 38⟩,
          raise provider .invalidParameter "X301 output buffer is too small"⟩
      else
        match Rust.exchangeDerive (some inner) (some (.replicate 38 0 : Bytes 38)) with
        | (1, some result) =>
          ⟨⟨1, some ⟨result.1 ++ secret.1.drop 38, by
            rw [List.length_append, List.length_drop, result.2, secret.2]
            omega⟩, some 38⟩, []⟩
        | _ => ⟨⟨0, some secret, some 0⟩,
            raise provider .invalidState "X301 key exchange failed"⟩
  | _, secretLength => ⟨⟨0, secret, secretLength⟩, []⟩

end Shim

end X301Provider
