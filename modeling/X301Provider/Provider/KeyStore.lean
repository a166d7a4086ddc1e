import X301Provider.Library.ObjectStore
import X301Provider.Provider.KeyInvariant

/-!
# Runs of the key functions

Any number of key objects, driven by calls with arbitrary pointers, buffers and
outcomes of the allocator and of the random callback.
-/

namespace X301Provider

open Limbs X301

inductive KeyCall
  | keyNew (allocates : Bool)
  | keyFree (key : Option Handle)
  | keyImport (key : Option Handle) (privateInput publicInput : ByteInput)
  | keySetEncodedPublic (key : Option Handle) (publicInput : ByteInput)
  | keyGenerate (fillRandom : Option FillRandom) (allocates : Bool)
  | keyDuplicate (source : Option Handle) (includePrivate includePublic : ℤ) (allocates : Bool)

inductive CallResult
  | void
  | status (value : ℤ)
  | pointer (value : Option Handle)
  deriving DecidableEq

def CallResult.Failed (result : CallResult) : Prop := result = .status 0 ∨ result = .pointer none

abbrev KeyStore := ObjectStore X301Key

namespace KeyStore

variable {keys : KeyStore} {handle : Handle} {key : X301Key}

def freePointer (keys : KeyStore) : Option Handle → KeyStore
  | none => keys
  | some handle => keys.free handle

def call [ModularInverse] (keys : KeyStore) : KeyCall → CallResult × KeyStore
  | .keyNew allocates =>
    let (pointer, keys) := keys.insertOption (Rust.keyNew allocates)
    (.pointer pointer, keys)
  | .keyFree key => (.void, keys.freePointer key)
  | .keyImport key privateInput publicInput =>
    let (status, object) := Rust.keyImport (keys.deref key) privateInput publicInput
    (.status status, keys.write key object)
  | .keySetEncodedPublic key publicInput =>
    let (status, object) := Rust.keySetEncodedPublic (keys.deref key) publicInput
    (.status status, keys.write key object)
  | .keyGenerate fillRandom allocates =>
    let (pointer, keys) := keys.insertOption (Rust.keyGenerate fillRandom allocates)
    (.pointer pointer, keys)
  | .keyDuplicate source includePrivate includePublic allocates =>
    let (pointer, keys) := keys.insertOption
      (Rust.keyDuplicate (keys.deref source) includePrivate includePublic allocates)
    (.pointer pointer, keys)

def run [ModularInverse] (calls : List KeyCall) : KeyStore :=
  calls.foldl (fun keys next => (keys.call next).2) ObjectStore.empty

theorem insertOption_of_failed {object : Option X301Key}
    (h : (CallResult.pointer (keys.insertOption object).1).Failed) :
    (keys.insertOption object).2 = keys := by
  cases object with
  | none => rfl
  | some object => rcases h with h | h <;> cases h

variable [ModularInverse]

theorem call_valid (hValid : keys.All X301Key.Valid) (next : KeyCall) :
    (keys.call next).2.All X301Key.Valid := by
  cases next with
  | keyNew allocates =>
    apply hValid.insertOption
    intro new hNew
    rw [Rust.keyNew, Rust.tryBox] at hNew
    split_ifs at hNew
    exact Option.some.inj hNew ▸ Rust.valid_private none
  | keyFree pointer =>
    cases pointer with
    | none => exact hValid
    | some handle => exact hValid.free
  | keyImport pointer privateInput publicInput =>
    apply hValid.write
    intro new hNew
    cases hKey : keys.deref pointer with
    | none =>
      rw [hKey] at hNew
      cases hNew
    | some key =>
      rw [hKey] at hNew
      exact Rust.keyImport_valid (hValid.deref hKey) hNew
  | keySetEncodedPublic pointer publicInput =>
    apply hValid.write
    intro new hNew
    cases hKey : keys.deref pointer with
    | none =>
      rw [hKey] at hNew
      cases hNew
    | some key =>
      rw [hKey] at hNew
      exact Rust.keySetEncodedPublic_valid (hValid.deref hKey) hNew
  | keyGenerate fillRandom allocates =>
    exact hValid.insertOption fun new hNew => Rust.keyGenerate_valid hNew
  | keyDuplicate source includePrivate includePublic allocates =>
    apply hValid.insertOption
    intro new hNew
    cases hKey : keys.deref source with
    | none =>
      rw [hKey] at hNew
      cases hNew
    | some key =>
      rw [hKey] at hNew
      exact Rust.keyDuplicate_valid (hValid.deref hKey) hNew

theorem foldl_valid (calls : List KeyCall) (hValid : keys.All X301Key.Valid) :
    (calls.foldl (fun keys next => (keys.call next).2) keys).All X301Key.Valid := by
  induction calls generalizing keys with
  | nil => exact hValid
  | cons next calls ih => exact ih (call_valid hValid next)

theorem run_valid (calls : List KeyCall) : (run calls).All X301Key.Valid :=
  foldl_valid calls ObjectStore.all_empty

theorem call_of_failed (next : KeyCall) (h : (keys.call next).1.Failed) :
    (keys.call next).2 = keys := by
  cases next with
  | keyNew allocates => exact insertOption_of_failed h
  | keyFree pointer => rcases h with h | h <;> cases h
  | keyImport pointer privateInput publicInput =>
    cases hKey : keys.deref pointer with
    | none =>
      simp only [call, hKey]
      rw [Rust.keyImport, ← hKey]
      exact ObjectStore.write_deref pointer
    | some key =>
      simp only [call, hKey] at h ⊢
      rcases Rust.keyImport_cases key privateInput publicInput with
        hSame | ⟨secret, encoded, -, -, -, hNew⟩
      · rw [hSame, ← hKey]
        exact ObjectStore.write_deref pointer
      · rw [hNew] at h
        rcases h with h | h <;> cases h
  | keySetEncodedPublic pointer publicInput =>
    cases hKey : keys.deref pointer with
    | none =>
      simp only [call, hKey]
      rw [Rust.keySetEncodedPublic, ← hKey]
      exact ObjectStore.write_deref pointer
    | some key =>
      simp only [call, hKey] at h ⊢
      rcases Rust.keySetEncodedPublic_cases key publicInput with
        hSame | ⟨encoded, -, -, -, hNew⟩
      · rw [hSame, ← hKey]
        exact ObjectStore.write_deref pointer
      · rw [hNew] at h
        rcases h with h | h <;> cases h
  | keyGenerate fillRandom allocates => exact insertOption_of_failed h
  | keyDuplicate source includePrivate includePublic allocates => exact insertOption_of_failed h

theorem keySetEncodedPublic_keeps (pointer : Option Handle) (publicInput : ByteInput)
    (hGet : keys.get handle = some key) :
    ∃ new, (keys.call (.keySetEncodedPublic pointer publicInput)).2.get handle = some new ∧
      new.privateKey = key.privateKey ∧
      ∀ encoded, key.publicKey = some encoded → new.publicKey = some encoded := by
  by_cases hSame : pointer = some handle
  · subst hSame
    simp only [call, ObjectStore.deref_some, hGet]
    rcases Rust.keySetEncodedPublic_cases key publicInput with
      hOld | ⟨encoded, -, -, hExisting, hNew⟩
    · rw [hOld, ObjectStore.get_write_some, hGet]
      exact ⟨key, rfl, rfl, fun _ h => h⟩
    · rw [hNew, ObjectStore.get_write_some, hGet]
      refine ⟨_, rfl, rfl, ?_⟩
      intro existing hPublic
      rw [Rust.conflict_eq_false_iff.mp hExisting existing encoded hPublic rfl]
  · exact ⟨key, (ObjectStore.get_write_of_ne _ hSame).trans hGet, rfl, fun _ h => h⟩

/-- Every reachable store is sound: the invariant of each key, what setting the public value
keeps, atomicity of failed calls, and validation as presence. -/
theorem reachable_sound (calls : List KeyCall) :
    (∀ handle key, (run calls).get handle = some key →
      (∀ encoded, key.publicKey = some encoded → bytesValue encoded.1 < P) ∧
      ∀ secret encoded, key.privateKey = some secret → key.publicKey = some encoded →
        publicFromSecret secret.1 = .ok encoded) ∧
    (∀ pointer publicInput handle key, (run calls).get handle = some key →
      ∃ new, ((run calls).call (.keySetEncodedPublic pointer publicInput)).2.get handle =
        some new ∧ new.privateKey = key.privateKey ∧
        ∀ encoded, key.publicKey = some encoded → new.publicKey = some encoded) ∧
    (∀ next, ((run calls).call next).1.Failed →
      ∀ handle, ((run calls).call next).2.get handle = (run calls).get handle) ∧
    ∀ handle key validatePrivate validatePublic, (run calls).get handle = some key →
      (Rust.keyValidate (some key) validatePrivate validatePublic = 1 ↔
        (validatePrivate ≠ 0 → key.privateKey.isSome = true) ∧
          (validatePublic ≠ 0 → key.publicKey.isSome = true)) := by
  have hValid := run_valid calls
  refine ⟨?_, ?_, ?_, ?_⟩
  · intro handle key hGet
    exact ⟨(hValid handle key hGet).canonical, (hValid handle key hGet).matching⟩
  · intro pointer publicInput handle key hGet
    exact keySetEncodedPublic_keeps pointer publicInput hGet
  · intro next hFailed handle
    rw [call_of_failed next hFailed]
  · intro handle key validatePrivate validatePublic hGet
    exact Rust.keyValidate_eq_one_iff (hValid handle key hGet) validatePrivate validatePublic

end KeyStore

end X301Provider
