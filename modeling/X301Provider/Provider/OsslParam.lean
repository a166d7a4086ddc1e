import X301Provider.Provider.KeyObjects

/-!
# Parameter arrays, selections and reported errors

The parameter arrays that OpenSSL passes to the provider. The accessors belong
to libcrypto; the code relies on their documented behaviour on octet strings and
on finding a parameter by its name.
-/

namespace X301Provider

inductive ParamType
  | integer
  | unsignedInteger
  | real
  | utf8String
  | octetString
  | utf8Ptr
  | octetPtr
  deriving DecidableEq

/-- One parameter; `returnSize` stays empty until a value is written. -/
structure OsslParam where
  key : String
  dataType : ParamType
  data : ByteInput
  returnSize : Option ℕ

/-- A parameter array up to its end marker; a null pointer is none. -/
abbrev ParamArray := Option (List OsslParam)

/-- The accessors of libcrypto. -/
class Libcrypto where
  locate : List OsslParam → String → Option OsslParam
  getOctetStringPtr : OsslParam → ℤ × ByteInput
  locate_mem : ∀ params name param, locate params name = some param →
    param ∈ params ∧ param.key = name
  locate_isSome : ∀ params name, (∃ param ∈ params, param.key = name) →
    (locate params name).isSome = true
  getOctetStringPtr_eq : ∀ param region, param.dataType = .octetString →
    param.data = .bytes region → getOctetStringPtr param = (1, .bytes region)

/-- The accessors as OpenSSL implements them: the first parameter of that name, read in place. -/
@[reducible] def Libcrypto.firstMatch : Libcrypto where
  locate params name := params.find? fun param => param.key == name
  getOctetStringPtr param := (if param.dataType = .octetString then 1 else 0, param.data)
  locate_mem := by
    intro params name param h
    exact ⟨List.mem_of_find?_eq_some h, by simpa using List.find?_some h⟩
  locate_isSome := by
    rintro params name ⟨param, hMem, rfl⟩
    rw [List.find?_isSome]
    exact ⟨param, hMem, beq_self_eq_true _⟩
  getOctetStringPtr_eq := by
    intro param region hType hData
    rw [hType, hData, if_pos rfl]

def privKeyName : String := "priv"
def pubKeyName : String := "pub"
def encodedPublicKeyName : String := "encoded-pub-key"

namespace ByteInput

def length : ByteInput → ℕ
  | .null length => length
  | .bytes region => region.length

def isNull : ByteInput → Bool
  | .null _ => true
  | .bytes _ => false

end ByteInput

/-- The value and length outputs on success; an absent optional parameter leaves them null. -/
def getStrictOctetString [Libcrypto] (params : ParamArray) (name : String) (expectedLength : ℕ)
    (required : Bool) : Option ByteInput :=
  match params.bind fun params => Libcrypto.locate params name with
  | none => if required then none else some (.null 0)
  | some param =>
    if param.dataType ≠ .octetString || param.data.isNull || param.data.length ≠ expectedLength then
      none
    else
      let (status, octets) := Libcrypto.getOctetStringPtr param
      if status ≠ 1 || octets.isNull || octets.length ≠ expectedLength then none
      else some octets

def paramsAreEmpty : ParamArray → Bool
  | none => true
  | some params => params.isEmpty

/-- A set of `OSSL_KEYMGMT_SELECT` bits. -/
abbrev Selection := BitVec 32

def selectPrivateKey : Selection := 0x01
def selectPublicKey : Selection := 0x02
def selectAll : Selection := 0x87

def selectionSupported (selection : Selection) : Bool := selection &&& ~~~selectAll == 0

def wantsPrivate (selection : Selection) : Bool := selection &&& selectPrivateKey != 0

def wantsPublic (selection : Selection) : Bool := selection &&& selectPublicKey != 0

inductive Reason
  | invalidKey
  | invalidState
  | invalidParameter
  | allocationFailure
  | randomFailure
  | internalError
  deriving DecidableEq

structure ProviderError where
  reason : Reason
  text : String
  deriving DecidableEq

/-- A provider context; `address` is what pointer comparison sees. -/
structure ProviderContext where
  address : ℕ
  hasLibctx : Bool
  hasRust : Bool
  hasZalloc : Bool
  hasErrorCallbacks : Bool
  deriving DecidableEq

def raise (provider : ProviderContext) (reason : Reason) (text : String) : List ProviderError :=
  if provider.hasErrorCallbacks then [⟨reason, text⟩] else []

/-- A returned value with the errors queued on the way. -/
structure Reported (α : Type) where
  value : α
  errors : List ProviderError

/-- The outcome of `zalloc`; without the callback there is no memory. -/
def ProviderContext.allocates (provider : ProviderContext) (outcome : Bool) : Bool :=
  provider.hasZalloc && outcome

end X301Provider
