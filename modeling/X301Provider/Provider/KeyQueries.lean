import X301Provider.Provider.KeyTransfer

/-!
# Questions about keys

Presence, validation, comparison and duplication behind the key wrappers, for the
components that a selection asks for. On reachable keys validation adds nothing to
presence, and keys with one private value never differ in a public value.
-/

namespace X301Provider

open Limbs X301

namespace Rust

/-- A component of two keys, compared if it is wanted. -/
def componentMatch (wanted : ℤ) (first second : Option (Bytes 38)) : Bool :=
  if wanted ≠ 0 then
    match first, second with
    | some first, some second => bytesEqual first second
    | _, _ => false
  else true

def keyMatch (first second : Option X301Key) (matchPrivate matchPublic : ℤ) : ℤ :=
  match first, second with
  | some first, some second =>
    if !componentMatch matchPrivate first.privateKey second.privateKey then 0
    else if !componentMatch matchPublic first.publicKey second.publicKey then 0
    else 1
  | _, _ => 0

end Rust

namespace Shim

def validateFullCheck : ℤ := 0
def validateQuickCheck : ℤ := 1

def x301KeyHas (key : Option KeyObject) (selection : Selection) : ℤ :=
  match key with
  | some ⟨some _, some inner⟩ =>
    if !selectionSupported selection then 0
    else Rust.keyHas inner (wantsPrivate selection).toInt (wantsPublic selection).toInt
  | _ => 0

def x301KeyValidate [ModularInverse] (key : Option KeyObject) (selection : Selection)
    (checkType : ℤ) : Reported ℤ :=
  match key with
  | some ⟨some provider, some inner⟩ =>
    if !selectionSupported selection ||
        (checkType != validateFullCheck && checkType != validateQuickCheck) then ⟨0, []⟩
    else
      let result := Rust.keyValidate inner (wantsPrivate selection).toInt
        (wantsPublic selection).toInt
      ⟨result, if result ≠ 1 then raise provider .invalidKey "X301 key validation failed" else []⟩
  | _ => ⟨0, []⟩

def x301KeyMatch (first second : Option KeyObject) (selection : Selection) : ℤ :=
  match first, second with
  | some ⟨some provider, some first⟩, some ⟨secondProvider, some second⟩ =>
    if !sameProvider (some provider) secondProvider || !selectionSupported selection then 0
    else Rust.keyMatch first second (wantsPrivate selection).toInt (wantsPublic selection).toInt
  | _, _ => 0

def x301KeyDuplicate (source : Option KeyObject) (selection : Selection)
    (rustAllocates zallocates : Bool) : Reported (Option KeyObject) :=
  match source with
  | some ⟨some provider, some inner⟩ =>
    if !selectionSupported selection then ⟨none, []⟩
    else
      match Rust.keyDuplicate inner (wantsPrivate selection).toInt (wantsPublic selection).toInt
        rustAllocates with
      | none => ⟨none, raise provider .allocationFailure "X301 key duplication failed"⟩
      | some inner => wrapKey provider inner zallocates
  | _ => ⟨none, []⟩

end Shim

/-! ### The selected part of a key -/

namespace X301Key

/-- The components that a selection asks for. -/
def select (key : X301Key) (selection : Selection) : X301Key :=
  ⟨if wantsPrivate selection then key.privateKey else none,
    if wantsPublic selection then key.publicKey else none⟩

/-- The key holds every component that the selection asks for. -/
def Has (key : X301Key) (selection : Selection) : Prop :=
  (wantsPrivate selection = true → key.privateKey.isSome = true) ∧
    (wantsPublic selection = true → key.publicKey.isSome = true)

variable {key first second : X301Key} {selection : Selection}

@[simp] theorem select_select :
    (key.select selection).select selection = key.select selection := by
  simp only [select]
  cases wantsPrivate selection <;> cases wantsPublic selection <;> rfl

/-- One private value has one public value. -/
theorem Valid.publicKey_eq [ModularInverse] (hFirst : first.Valid) (hSecond : second.Valid)
    (hPrivate : first.privateKey = second.privateKey) (hPresent : first.privateKey.isSome = true)
    (hFirstPublic : first.publicKey.isSome = true)
    (hSecondPublic : second.publicKey.isSome = true) : first.publicKey = second.publicKey := by
  obtain ⟨secret, hSecret⟩ := Option.isSome_iff_exists.mp hPresent
  obtain ⟨encoded, hEncoded⟩ := Option.isSome_iff_exists.mp hFirstPublic
  obtain ⟨other, hOther⟩ := Option.isSome_iff_exists.mp hSecondPublic
  rw [hEncoded, hOther, hFirst.publicOf_eq hSecret hEncoded,
    hSecond.publicOf_eq (hPrivate ▸ hSecret) hOther]

end X301Key

namespace Rust

variable {key first second : X301Key} {selection : Selection}

theorem toInt_ne_zero {b : Bool} : b.toInt ≠ 0 ↔ b = true := by cases b <;> decide

theorem keyHas_selection :
    keyHas (some key) (wantsPrivate selection).toInt (wantsPublic selection).toInt = 1 ↔
      key.Has selection := by
  simp only [keyHas, X301Key.Has, ← toInt_ne_zero, ne_eq, ← or_iff_not_imp_left]
  split_ifs with h
  · simpa using h
  · simpa using h

theorem componentMatch_iff {wanted : Bool} {first second : Option (Bytes 38)} :
    componentMatch wanted.toInt first second = true ↔
      (wanted = true → first.isSome = true) ∧
        (if wanted then first else none) = if wanted then second else none := by
  cases wanted with
  | false => simp [componentMatch]
  | true => cases first <;> cases second <;> simp [componentMatch]

theorem keyMatch_selection :
    keyMatch (some first) (some second) (wantsPrivate selection).toInt
        (wantsPublic selection).toInt = 1 ↔
      first.Has selection ∧ first.select selection = second.select selection := by
  have hMatch : keyMatch (some first) (some second) (wantsPrivate selection).toInt
      (wantsPublic selection).toInt = 1 ↔
        componentMatch (wantsPrivate selection).toInt first.privateKey second.privateKey = true ∧
          componentMatch (wantsPublic selection).toInt first.publicKey second.publicKey = true := by
    rw [keyMatch]
    split_ifs with hPrivate hPublic <;> simp_all
  rw [hMatch, componentMatch_iff, componentMatch_iff, and_and_and_comm, X301Key.select,
    X301Key.select, X301Key.mk.injEq]
  exact Iff.rfl

theorem keyDuplicate_selection (allocates : Bool) :
    keyDuplicate (some key) (wantsPrivate selection).toInt (wantsPublic selection).toInt allocates =
      if allocates then some (key.select selection) else none := by
  simp only [keyDuplicate, tryBox, toInt_ne_zero, X301Key.select]

theorem keyValidate_selection [ModularInverse] (hKey : key.Valid) :
    keyValidate (some key) (wantsPrivate selection).toInt (wantsPublic selection).toInt = 1 ↔
      key.Has selection := by
  rw [keyValidate_eq_one_iff hKey, toInt_ne_zero, toInt_ne_zero]
  exact Iff.rfl

end Rust

namespace Shim

variable {key first second : X301Key} {provider secondProvider : ProviderContext}
  {selection : Selection}

/-- A Rust key in its wrapper. -/
def wrapped (provider : ProviderContext) (key : X301Key) : KeyObject := ⟨some provider, some key⟩

theorem x301KeyHas_iff : x301KeyHas (some (wrapped provider key)) selection = 1 ↔
    selectionSupported selection = true ∧ key.Has selection := by
  rw [wrapped, x301KeyHas]
  cases selectionSupported selection with
  | false => simp
  | true =>
    rw [Bool.not_true, if_neg Bool.false_ne_true, Rust.keyHas_selection]
    exact (and_iff_right rfl).symm

theorem sameProvider_iff : sameProvider (some provider) (some secondProvider) = true ↔
    provider.address = secondProvider.address := by
  rw [sameProvider, Option.map_some, Option.map_some, beq_iff_eq, Option.some.injEq]

theorem x301KeyMatch_iff :
    x301KeyMatch (some (wrapped provider first)) (some (wrapped secondProvider second)) selection
        = 1 ↔
      provider.address = secondProvider.address ∧ selectionSupported selection = true ∧
        first.Has selection ∧ first.select selection = second.select selection := by
  rw [← sameProvider_iff, wrapped, wrapped, x301KeyMatch]
  cases sameProvider (some provider) (some secondProvider) with
  | false => simp
  | true =>
    cases selectionSupported selection with
    | false => simp
    | true =>
      simp only [Bool.not_true, Bool.or_false, if_neg Bool.false_ne_true, Rust.keyMatch_selection,
        true_and]

theorem x301KeyValidate_iff [ModularInverse] (hKey : key.Valid) (checkType : ℤ) :
    (x301KeyValidate (some (wrapped provider key)) selection checkType).value = 1 ↔
      (checkType = validateFullCheck ∨ checkType = validateQuickCheck) ∧
        x301KeyHas (some (wrapped provider key)) selection = 1 := by
  rw [x301KeyHas_iff, wrapped, x301KeyValidate]
  split_ifs with hRefused
  · simp only [Bool.or_eq_true, Bool.not_eq_true', Bool.and_eq_true, bne_iff_ne] at hRefused
    rcases hRefused with hUnsupported | ⟨hFull, hQuick⟩
    · simp [hUnsupported]
    · simp [hFull, hQuick]
  · simp only [Bool.or_eq_true, Bool.not_eq_true', Bool.and_eq_true, bne_iff_ne, not_or, not_and,
      not_not, Bool.not_eq_false] at hRefused
    have hType : checkType = validateFullCheck ∨ checkType = validateQuickCheck :=
      or_iff_not_imp_left.mpr hRefused.2
    rw [Rust.keyValidate_selection hKey, and_iff_right hType, and_iff_right hRefused.1]

theorem x301KeyDuplicate_eq (rustAllocates zallocates : Bool) :
    (x301KeyDuplicate (some (wrapped provider key)) selection rustAllocates zallocates).value =
      if selectionSupported selection = true ∧ rustAllocates = true ∧ provider.hasRust = true ∧
        provider.allocates zallocates = true
      then some (wrapped provider (key.select selection)) else none := by
  rw [wrapped, x301KeyDuplicate]
  cases selectionSupported selection with
  | false => simp
  | true =>
    rw [Rust.keyDuplicate_selection]
    cases rustAllocates with
    | false => simp
    | true =>
      simp only [wrapKey, wrap, wrapped]
      cases provider.hasRust <;> cases provider.allocates zallocates <;> simp

/-- On reachable keys every answer is determined by what the keys hold: presence, validation of
either kind, comparison, and the copy of the selected part, which matches its source where the
source holds it. Keys with one private value also agree on the public value. -/
theorem keyQueries_exact [ModularInverse] (calls : List KeyCall) {handle other : Handle}
    (hFirst : (KeyStore.run calls).get handle = some first)
    (hSecond : (KeyStore.run calls).get other = some second) (selection : Selection)
    (provider secondProvider : ProviderContext) :
    let source : Option KeyObject := some (wrapped provider first)
    let target : Option KeyObject := some (wrapped secondProvider second)
    (x301KeyHas source selection = 1 ↔
      selectionSupported selection = true ∧ first.Has selection) ∧
    (∀ checkType, (x301KeyValidate source selection checkType).value = 1 ↔
      (checkType = validateFullCheck ∨ checkType = validateQuickCheck) ∧
        x301KeyHas source selection = 1) ∧
    (x301KeyMatch source target selection = 1 ↔
      provider.address = secondProvider.address ∧ selectionSupported selection = true ∧
        first.Has selection ∧ first.select selection = second.select selection) ∧
    (x301KeyMatch source target selectPrivateKey = 1 → first.publicKey.isSome = true →
      second.publicKey.isSome = true →
        x301KeyMatch source target (selectPrivateKey ||| selectPublicKey) = 1) ∧
    (∀ rustAllocates zallocates,
      (x301KeyDuplicate source selection rustAllocates zallocates).value =
        if selectionSupported selection = true ∧ rustAllocates = true ∧
          provider.hasRust = true ∧ provider.allocates zallocates = true
        then some (wrapped provider (first.select selection)) else none) ∧
    (x301KeyMatch source (some (wrapped provider (first.select selection))) selection = 1 ↔
      x301KeyHas source selection = 1) := by
  have hFirstValid := KeyStore.run_valid calls handle first hFirst
  have hSecondValid := KeyStore.run_valid calls other second hSecond
  refine ⟨x301KeyHas_iff, x301KeyValidate_iff hFirstValid, x301KeyMatch_iff, ?_,
    x301KeyDuplicate_eq, ?_⟩
  · intro hMatch hFirstPublic hSecondPublic
    obtain ⟨hAddress, -, ⟨hHas, -⟩, hSelect⟩ := x301KeyMatch_iff.mp hMatch
    have hPrivate : first.privateKey = second.privateKey := (X301Key.mk.inj hSelect).1
    have hPresent := hHas (by decide)
    have hPublic := hFirstValid.publicKey_eq hSecondValid hPrivate hPresent hFirstPublic
      hSecondPublic
    have hEqual : first = second := by
      cases first
      cases second
      exact X301Key.mk.injEq .. ▸ ⟨hPrivate, hPublic⟩
    refine x301KeyMatch_iff.mpr
      ⟨hAddress, by decide, ⟨fun _ => hPresent, fun _ => hFirstPublic⟩, ?_⟩
    rw [hEqual]
  · rw [x301KeyMatch_iff, x301KeyHas_iff, X301Key.select_select]
    simp

theorem run_generated [ModularInverse] (secret : Bytes 38) :
    (KeyStore.run [.keyGenerate (some fun _ => (1, secret)) true,
      .keyDuplicate (some 0) 1 0 true]).get 0 = some ⟨some secret, some (publicOf secret)⟩ := by
  have hGenerate : Rust.keyGenerate (some fun _ => (1, secret)) true =
      some ⟨some secret, some (publicOf secret)⟩ := Rust.keyGenerate_of_fill rfl
  simp only [KeyStore.run, List.foldl, KeyStore.call, hGenerate]
  rfl

/-- A generated key and a copy of its private part. -/
theorem keyQueries_exact_copy :
    let provider : ProviderContext := ⟨0, true, true, true, true⟩
    let secret : Bytes 38 := .replicate 38 0
    let source : Option KeyObject := some (wrapped provider ⟨some secret, some (publicOf secret)⟩)
    let copy : Option KeyObject := some (wrapped provider ⟨some secret, none⟩)
    (@x301KeyValidate .zeroAtZero source 0x03 validateFullCheck).value = 1 ∧
      x301KeyMatch source copy selectPrivateKey = 1 ∧ x301KeyMatch source copy 0x03 ≠ 1 := by
  intro provider secret source copy
  have hSource := @run_generated .zeroAtZero secret
  have hCopy := @run_private_duplicate .zeroAtZero secret
  obtain ⟨hHas, hValidate, hMatch, -⟩ :=
    @keyQueries_exact _ _ .zeroAtZero _ _ _ hSource hCopy 0x03 provider provider
  obtain ⟨-, -, hPrivate, -⟩ :=
    @keyQueries_exact _ _ .zeroAtZero _ _ _ hSource hCopy selectPrivateKey provider provider
  refine ⟨(hValidate _).mpr ⟨Or.inl rfl, hHas.mpr ?_⟩, hPrivate.mpr ?_, fun h => ?_⟩
  · exact ⟨by decide, fun _ => rfl, fun _ => rfl⟩
  · exact ⟨rfl, by decide, ⟨fun _ => rfl, fun h => absurd h (by decide)⟩, rfl⟩
  · obtain ⟨-, -, -, hSelect⟩ := hMatch.mp h
    cases (X301Key.mk.inj hSelect).2

end Shim

end X301Provider
