import X301Provider.Provider.KeyImport
import X301Provider.Provider.KeyStore

/-!
# Moving a key through a parameter array

Export writes whatever selected component the key holds; import is strict about
a sole selected component and cross-checks a pair. The invariant of the key is
what makes an exported pair importable.
-/

namespace X301Provider

open Limbs X301

variable {key : X301Key} {selection : Selection}

section Accessors

variable [Libcrypto] {params : List OsslParam} {name : String} {param : OsslParam}

theorem locate_eq_none (h : ∀ param ∈ params, param.key ≠ name) :
    Libcrypto.locate params name = none := by
  cases hLocate : Libcrypto.locate params name with
  | none => rfl
  | some found =>
    obtain ⟨hMem, hName⟩ := Libcrypto.locate_mem params name found hLocate
    exact absurd hName (h found hMem)

theorem locate_eq_some (hMem : param ∈ params) (hName : param.key = name)
    (hUnique : ∀ other ∈ params, other.key = name → other = param) :
    Libcrypto.locate params name = some param := by
  obtain ⟨found, hFound⟩ :=
    Option.isSome_iff_exists.mp (Libcrypto.locate_isSome params name ⟨param, hMem, hName⟩)
  obtain ⟨hFoundMem, hFoundName⟩ := Libcrypto.locate_mem params name found hFound
  rw [hFound, hUnique found hFoundMem hFoundName]

end Accessors

namespace Shim

/-- The parameter of one component, if it is wanted and present. -/
def componentParams (name : String) (wanted : Bool) (component : Option (Bytes 38)) :
    List OsslParam :=
  ((if wanted then component else none).map (octetStringParam name)).toList

theorem exportComponent_eq (name : String) (wanted : Bool) (component : Option (Bytes 38))
    (has : ℤ) (hHas : has = if component.isSome then 1 else 0) :
    exportComponent name wanted has (Rust.writeComponent component) =
      some (componentParams name wanted component) := by
  subst hHas
  cases wanted with
  | false => rfl
  | true =>
    cases component with
    | none => rfl
    | some value =>
      simp only [exportComponent, Rust.writeComponent_full]
      rfl

theorem exportParams_eq (key : X301Key) (selection : Selection) :
    exportParams key selection =
      let params := componentParams privKeyName (wantsPrivate selection) key.privateKey ++
        componentParams pubKeyName (wantsPublic selection) key.publicKey
      if params.isEmpty then none else some params := by
  have hPrivate : exportComponent privKeyName (wantsPrivate selection) (Rust.keyHas key 1 0)
      (Rust.keyGetPrivate key) =
        some (componentParams privKeyName (wantsPrivate selection) key.privateKey) := by
    apply exportComponent_eq
    simp [Rust.keyHas]
  have hPublic : exportComponent pubKeyName (wantsPublic selection) (Rust.keyHas key 0 1)
      (Rust.keyGetPublic key) =
        some (componentParams pubKeyName (wantsPublic selection) key.publicKey) := by
    apply exportComponent_eq
    simp [Rust.keyHas]
  simp only [exportParams, hPrivate, hPublic]

theorem componentParams_key {name : String} {wanted : Bool} {component : Option (Bytes 38)}
    {param : OsslParam} (h : param ∈ componentParams name wanted component) :
    param.key = name ∧ ∃ value, (if wanted then component else none) = some value ∧
      param = octetStringParam name value := by
  rw [componentParams, Option.mem_toList, Option.map_eq_some_iff] at h
  obtain ⟨value, hValue, rfl⟩ := h
  exact ⟨rfl, value, hValue, rfl⟩

/-- An array with the parameter of a component, and others under other names, supplies it. -/
theorem supplies_componentParams [Libcrypto] {params others : List OsslParam} {name : String}
    {component : Option (Bytes 38)} {wanted : Bool}
    (hParams : ∀ param, param ∈ params ↔ param ∈ componentParams name wanted component ∨
      param ∈ others) (hOthers : ∀ param ∈ others, param.key ≠ name) :
    Supplies (some params) name wanted (if wanted then component else none) := by
  cases wanted with
  | false => exact .unselected
  | true =>
    cases component with
    | none =>
      apply Supplies.absent
      apply locate_eq_none
      intro param hMem
      cases (hParams param).mp hMem with
      | inl hOwn =>
        cases hOwn
      | inr hOther =>
        exact hOthers param hOther
    | some value =>
      have hMem : octetStringParam name value ∈ params :=
        (hParams _).mpr (Or.inl (by simp [componentParams]))
      refine .present (locate_eq_some hMem rfl ?_) rfl rfl
      intro other hOther hName
      cases (hParams other).mp hOther with
      | inl hOwn =>
        obtain ⟨-, found, hFound, rfl⟩ := componentParams_key hOwn
        rw [← Option.some.inj hFound]
      | inr hForeign =>
        exact absurd hName (hOthers other hForeign)

theorem x301KeyExport_eq_one_iff (hSupported : selectionSupported selection = true)
    (hSelected : wantsPrivate selection = true ∨ wantsPublic selection = true)
    (provider : ProviderContext) {callback : List OsslParam → ℤ}
    (hAccepts : ∀ params, callback params = 1) :
    (x301KeyExport (some ⟨some provider, some key⟩) selection (some callback)).value.1 = 1 ↔
      (wantsPrivate selection = true ∧ key.privateKey.isSome = true) ∨
        (wantsPublic selection = true ∧ key.publicKey.isSome = true) := by
  obtain ⟨secret, encoded⟩ := key
  simp only [x301KeyExport, hSupported, exportParams_eq, hAccepts]
  cases hSelected with
  | inl hPrivate =>
    cases hPublic : wantsPublic selection <;> cases secret <;> cases encoded <;>
      simp [hPrivate, componentParams]
  | inr hPublic =>
    cases hPrivate : wantsPrivate selection <;> cases secret <;> cases encoded <;>
      simp [hPublic, componentParams]

theorem exportParams_of_export {callback : List OsslParam → ℤ} {provider : ProviderContext}
    {params : List OsslParam}
    (h : (x301KeyExport (some ⟨some provider, some key⟩) selection (some callback)).value =
      (1, some params)) : exportParams key selection = some params := by
  simp only [x301KeyExport] at h
  split_ifs at h
  · cases h
  · cases hParams : exportParams key selection with
    | none =>
      rw [hParams] at h
      cases h
    | some found =>
      simp only [hParams] at h
      split_ifs at h
      · rw [Option.some.inj (Prod.mk.inj h).2]
      · cases (Prod.mk.inj h).1

variable [ModularInverse]

theorem wellFormedImport_exported [Libcrypto] (hKey : key.Valid) {params : List OsslParam}
    (hSupported : selectionSupported selection = true)
    (hSelected : wantsPrivate selection = true ∨ wantsPublic selection = true)
    (h : exportParams key selection = some params) :
    WellFormedImport selection (some params)
      (if wantsPrivate selection then key.privateKey else none)
      (if wantsPublic selection then key.publicKey else none) := by
  obtain ⟨secret, encoded⟩ := key
  rw [exportParams_eq] at h
  dsimp only at h ⊢
  split_ifs at h with hEmpty
  obtain rfl := Option.some.inj h
  have hNames : privKeyName ≠ pubKeyName := by decide
  have hPresent : (if wantsPrivate selection then secret else none).isSome = true ∨
      (if wantsPublic selection then encoded else none).isSome = true := by
    rw [Option.isSome_iff_ne_none, Option.isSome_iff_ne_none, ← not_and_or]
    rintro ⟨hPrivate, hPublic⟩
    apply hEmpty
    rw [componentParams, componentParams, hPrivate, hPublic]
    rfl
  constructor
  · rfl
  · exact hSupported
  · exact hSelected
  · apply supplies_componentParams (fun param => List.mem_append)
    intro param hMem
    rw [(componentParams_key hMem).1]
    exact hNames.symm
  · apply supplies_componentParams (fun param => List.mem_append.trans or_comm)
    intro param hMem
    rw [(componentParams_key hMem).1]
    exact hNames
  · intro hWants hOther
    refine hPresent.resolve_right ?_
    rw [hOther]
    exact Bool.false_ne_true
  · intro hWants hOther
    refine hPresent.resolve_left ?_
    rw [hOther]
    exact Bool.false_ne_true
  · exact fun _ _ => hPresent
  · intro raw given hPrivate hPublic
    split_ifs at hPrivate hPublic
    refine ⟨given, ?_, ?_⟩
    · rw [canonicalizePublicEncoding_eq, hKey.canonicalForm_eq hPublic]
    · exact hKey.matching raw given hPrivate hPublic

theorem x301KeyImport_exported [Libcrypto] (hKey : key.Valid) {params : List OsslParam}
    (hSupported : selectionSupported selection = true)
    (hSelected : wantsPrivate selection = true ∨ wantsPublic selection = true)
    (h : exportParams key selection = some params) (provider : ProviderContext)
    (inner : X301Key) :
    (x301KeyImport (some ⟨some provider, some inner⟩) selection (some params)).value =
      (1, some ⟨some provider, some
        ⟨if wantsPrivate selection then key.privateKey else none,
          (if wantsPrivate selection then key.privateKey else none).map publicOf <|>
            if wantsPublic selection then key.publicKey else none⟩⟩) := by
  have hCanonical : (if wantsPublic selection then key.publicKey else none).map canonicalForm =
      if wantsPublic selection then key.publicKey else none := by
    split_ifs
    · cases hPublic : key.publicKey with
      | none => rfl
      | some encoded => rw [Option.map_some, hKey.canonicalForm_eq hPublic]
    · rfl
  rw [x301KeyImport_of_wellFormed (wellFormedImport_exported hKey hSupported hSelected h),
    hCanonical]

/-- Export succeeds exactly when a selected component is held, and every exported array is
imported by any key object with the private and public values of the exporting key. -/
theorem export_import_round_trip [Libcrypto] (calls : List KeyCall) (handle : Handle)
    (hGet : (KeyStore.run calls).get handle = some key)
    (hSupported : selectionSupported selection = true)
    (hSelected : wantsPrivate selection = true ∨ wantsPublic selection = true)
    (provider : ProviderContext) (callback : List OsslParam → ℤ)
    (hAccepts : ∀ params, callback params = 1) :
    ((x301KeyExport (some ⟨some provider, some key⟩) selection (some callback)).value.1 = 1 ↔
      (wantsPrivate selection = true ∧ key.privateKey.isSome = true) ∨
        (wantsPublic selection = true ∧ key.publicKey.isSome = true)) ∧
    ∀ params, (x301KeyExport (some ⟨some provider, some key⟩) selection
        (some callback)).value = (1, some params) →
      ∀ targetProvider targetKey, ∃ new,
        (x301KeyImport (some ⟨some targetProvider, some targetKey⟩) selection
          (some params)).value = (1, some ⟨some targetProvider, some new⟩) ∧
        new.privateKey = (if wantsPrivate selection then key.privateKey else none) ∧
        (∀ secret, new.privateKey = some secret → ∃ encoded,
          publicFromSecret secret.1 = .ok encoded ∧ new.publicKey = some encoded) ∧
        (new.privateKey = none → new.publicKey = key.publicKey) := by
  have hKey := KeyStore.run_valid calls handle key hGet
  refine ⟨x301KeyExport_eq_one_iff hSupported hSelected provider hAccepts, ?_⟩
  intro params hExport targetProvider targetKey
  have hParams := exportParams_of_export hExport
  refine ⟨_, x301KeyImport_exported hKey hSupported hSelected hParams targetProvider targetKey,
    rfl, ?_, ?_⟩
  · intro secret hSecret
    refine ⟨publicOf secret, publicFromSecret_eq_publicOf secret, ?_⟩
    dsimp only at hSecret ⊢
    rw [hSecret]
    rfl
  · intro hNone
    dsimp only at hNone ⊢
    have hPublic := (wellFormedImport_exported hKey hSupported hSelected hParams).isSome
    rw [hNone] at hPublic ⊢
    split_ifs at hPublic ⊢ with hWants
    · rfl
    · simp at hPublic

theorem run_private_duplicate (secret : Bytes 38) :
    (KeyStore.run [.keyGenerate (some fun _ => (1, secret)) true,
      .keyDuplicate (some 0) 1 0 true]).get 1 = some ⟨some secret, none⟩ := by
  have hGenerate : Rust.keyGenerate (some fun _ => (1, secret)) true =
      some ⟨some secret, some (publicOf secret)⟩ := Rust.keyGenerate_of_fill rfl
  simp only [KeyStore.run, List.foldl, KeyStore.call, hGenerate]
  rfl

omit [ModularInverse] in
theorem export_import_round_trip_private :
    ∃ new,
      (@x301KeyImport .zeroAtZero .firstMatch
        (some ⟨some ⟨0, true, true, true, true⟩, some ⟨none, none⟩⟩) 0x03
        (some [octetStringParam privKeyName (.replicate 38 0)])).value =
          (1, some ⟨some ⟨0, true, true, true, true⟩, some new⟩) ∧
      new.privateKey = some (.replicate 38 0) := by
  obtain ⟨-, hImport⟩ := @export_import_round_trip _ 0x03 .zeroAtZero .firstMatch _ _
    (@run_private_duplicate .zeroAtZero (.replicate 38 0)) (by decide) (Or.inl (by decide))
    ⟨0, true, true, true, true⟩ (fun _ => 1) (fun _ => rfl)
  obtain ⟨new, hNew, hPrivate, -⟩ := hImport _ rfl ⟨0, true, true, true, true⟩ ⟨none, none⟩
  exact ⟨new, hNew, hPrivate⟩

end Shim

end X301Provider
