import X301Provider.X301.Ladder

/-!
# Rust-owned keys and exchange contexts

The function table behind the C shim. A pointer to an object is an optional
object, and a call returns the object it leaves behind; statuses are C integers.
What the allocator and the random callback do is an argument of the call.
-/

namespace X301Provider

open Limbs

structure X301Key where
  privateKey : Option (Bytes 38)
  publicKey : Option (Bytes 38)
  deriving DecidableEq

structure X301Exchange where
  privateKey : Option (Bytes 38)
  peerPublic : Option (Bytes 38)
  deriving DecidableEq

/-- A pointer and a length; behind a non-null pointer that many bytes are readable. -/
inductive ByteInput
  | null (length : ℕ)
  | bytes (region : List UInt8)
  deriving DecidableEq

/-- What a random callback returns and leaves in the buffer it was given. -/
abbrev FillRandom := Bytes 38 → ℤ × Bytes 38

namespace Rust

open X301

def tryBox {α : Type} (allocates : Bool) (value : α) : Option α :=
  if allocates then some value else none

def bytesEqual {n : ℕ} (left right : Bytes n) : Bool := left = right

/-- The outer option is the error; a null pointer of length zero reads as an absent value. -/
def readOptionalPublic : ByteInput → Option (Option (Bytes 38))
  | .null length => if length = 0 then some none else none
  | .bytes region =>
    match toArray 38 region with
    | none => none
    | some encoded =>
      match canonicalizePublicEncoding encoded.1 with
      | .error _ => none
      | .ok canonical => some (some canonical)

def readOptionalSecret : ByteInput → Option (Option (Bytes 38))
  | .null length => if length = 0 then some none else none
  | .bytes region => (toArray 38 region).map some

def writeExact {n m : ℕ} (output : Option (Bytes n)) (value : Bytes m) : Bool × Option (Bytes n) :=
  match output with
  | none => (false, none)
  | some buffer =>
    if h : n < m then (false, some buffer)
    else (true, some ⟨value.1 ++ buffer.1.drop m, by
      rw [List.length_append, List.length_drop, value.2, buffer.2]
      omega⟩)

def cleanse {n : ℕ} (_buffer : Bytes n) : Bytes n := .replicate n 0

def keyNew (allocates : Bool) : Option X301Key := tryBox allocates ⟨none, none⟩

/-- The public key of a secret that is present; the outer option is the error. -/
def derivedPublic [ModularInverse] : Option (Bytes 38) → Option (Option (Bytes 38))
  | none => some none
  | some secret =>
    match publicFromSecret secret.1 with
    | .error _ => none
    | .ok value => some (some value)

/-- Two values that are both present and differ. -/
def conflict : Option (Bytes 38) → Option (Bytes 38) → Bool
  | some left, some right => !bytesEqual left right
  | _, _ => false

def keyImport [ModularInverse] (key : Option X301Key) (privateInput publicInput : ByteInput) :
    ℤ × Option X301Key :=
  match key with
  | none => (0, none)
  | some key =>
    match readOptionalSecret privateInput with
    | none => (0, some key)
    | some rawPrivate =>
      match readOptionalPublic publicInput with
      | none => (0, some key)
      | some rawPublic =>
        if rawPrivate.isNone && rawPublic.isNone then (0, some key)
        else
          match derivedPublic rawPrivate with
          | none => (0, some key)
          | some derived =>
            if conflict derived rawPublic then (0, some key)
            else (1, some ⟨rawPrivate, derived <|> rawPublic⟩)

def keySetEncodedPublic [ModularInverse] (key : Option X301Key) (publicInput : ByteInput) :
    ℤ × Option X301Key :=
  match key with
  | none => (0, none)
  | some key =>
    match readOptionalPublic publicInput with
    | none => (0, some key)
    | some none => (0, some key)
    | some (some encoded) =>
      match derivedPublic key.privateKey with
      | none => (0, some key)
      | some derived =>
        if conflict derived encoded then (0, some key)
        else if conflict key.publicKey encoded then (0, some key)
        else (1, some { key with publicKey := some encoded })

def keyGenerate [ModularInverse] (fillRandom : Option FillRandom) (allocates : Bool) :
    Option X301Key :=
  match fillRandom with
  | none => none
  | some fillRandom =>
    let (status, secret) := fillRandom (.replicate 38 0)
    if status ≠ 1 then none
    else
      match publicFromSecret secret.1 with
      | .error _ => none
      | .ok derived => tryBox allocates ⟨some secret, some derived⟩

def keyDuplicate (source : Option X301Key) (includePrivate includePublic : ℤ) (allocates : Bool) :
    Option X301Key :=
  match source with
  | none => none
  | some source => tryBox allocates
      ⟨if includePrivate ≠ 0 then source.privateKey else none,
        if includePublic ≠ 0 then source.publicKey else none⟩

def keyHas (key : Option X301Key) (requirePrivate requirePublic : ℤ) : ℤ :=
  match key with
  | none => 0
  | some key =>
    if (requirePrivate = 0 ∨ key.privateKey.isSome) ∧ (requirePublic = 0 ∨ key.publicKey.isSome)
    then 1 else 0

def keyValidate [ModularInverse] (key : Option X301Key) (validatePrivate validatePublic : ℤ) : ℤ :=
  match key with
  | none => 0
  | some key =>
    if validatePrivate ≠ 0 ∧ key.privateKey = none then 0
    else
      match derivedPublic (if validatePrivate ≠ 0 then key.privateKey else none) with
      | none => 0
      | some derived =>
        if validatePublic ≠ 0 then
          match key.publicKey with
          | none => 0
          | some encoded =>
            match validatePublicEncoding encoded.1 with
            | .error _ => 0
            | .ok () => if conflict derived encoded then 0 else 1
        else 1

def writeComponent {n : ℕ} (component : Option (Bytes 38)) (output : Option (Bytes n)) :
    ℤ × Option (Bytes n) :=
  match component with
  | none => (0, output)
  | some value =>
    let (written, output) := writeExact output value
    (if written then 1 else 0, output)

def keyGetPrivate {n : ℕ} (key : Option X301Key) (output : Option (Bytes n)) :
    ℤ × Option (Bytes n) := writeComponent (key.bind X301Key.privateKey) output

def keyGetPublic {n : ℕ} (key : Option X301Key) (output : Option (Bytes n)) :
    ℤ × Option (Bytes n) := writeComponent (key.bind X301Key.publicKey) output

def exchangeNew (allocates : Bool) : Option X301Exchange := tryBox allocates ⟨none, none⟩

def exchangeDuplicate (source : Option X301Exchange) (allocates : Bool) : Option X301Exchange :=
  source.bind (tryBox allocates)

def exchangeInit (exchange : Option X301Exchange) (key : Option X301Key) :
    ℤ × Option X301Exchange :=
  match exchange, key with
  | some exchange, some key =>
    match key.privateKey with
    | none => (0, some exchange)
    | some secret => (1, some ⟨some secret, none⟩)
  | exchange, _ => (0, exchange)

def exchangeSetPeer (exchange : Option X301Exchange) (peer : Option X301Key) :
    ℤ × Option X301Exchange :=
  match exchange, peer with
  | some exchange, some peer =>
    if exchange.privateKey.isNone then (0, some exchange)
    else
      match peer.publicKey with
      | none => (0, some exchange)
      | some encoded =>
        match validatePublicEncoding encoded.1 with
        | .error _ => (0, some exchange)
        | .ok () => (1, some { exchange with peerPublic := some encoded })
  | exchange, _ => (0, exchange)

def exchangeDerive [ModularInverse] {n : ℕ} (exchange : Option X301Exchange)
    (output : Option (Bytes n)) : ℤ × Option (Bytes n) :=
  match exchange with
  | none => (0, output)
  | some exchange =>
    match exchange.privateKey, exchange.peerPublic with
    | some secret, some peerPublic =>
      match sharedSecret secret.1 peerPublic.1 with
      | .error _ => (0, output)
      | .ok shared => writeComponent (some shared) output
    | _, _ => (0, output)

end Rust

end X301Provider
