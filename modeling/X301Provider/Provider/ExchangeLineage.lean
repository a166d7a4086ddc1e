import X301Provider.Library.CaptureLog
import X301Provider.Library.ObjectStore
import X301Provider.Provider.KeyInvariant
import X301Provider.Provider.Shim

/-!
# Runs of the exchange contexts

Key objects and exchange contexts under any interleaving of calls. Beside the
objects a run keeps, for each context, the log of what it captured; a duplicate
starts with the log of its source. A derivation agrees with the log alone.
-/

namespace X301Provider

open Limbs X301 Shim

structure World where
  keys : ObjectStore KeyObject
  exchanges : ObjectStore ExchangeObject

/-- A call on key objects or on exchange contexts; the Booleans are the two allocations. -/
inductive ExchangeCall
  | keyNew (provider : Option ProviderContext) (rustAllocates zallocates : Bool)
  | keyImport (key : Option Handle) (selection : Selection) (params : ParamArray)
  | keySetParams (key : Option Handle) (params : ParamArray)
  | keyFree (key : Handle)
  | exchangeNew (provider : Option ProviderContext) (rustAllocates zallocates : Bool)
  | exchangeInit (exchange key : Option Handle) (params : ParamArray)
  | exchangeSetPeer (exchange peer : Option Handle)
  | exchangeDuplicate (source : Option Handle) (rustAllocates zallocates : Bool)
  | exchangeDerive (exchange : Option Handle) (n : ℕ) (secret : Option (Bytes n))
      (secretLength : Option ℕ)
  | exchangeFree (exchange : Handle)

inductive ExchangeResult
  | void
  | status (value : ℤ)
  | pointer (value : Option Handle)
  | derived (n : ℕ) (output : DeriveOutput n)

def ExchangeResult.Failed : ExchangeResult → Prop
  | .void => False
  | .status value => value ≠ 1
  | .pointer value => value = none
  | .derived _ output => output.status ≠ 1

def ExchangeCall.context : ExchangeCall → Option Handle
  | .exchangeInit exchange _ _ => exchange
  | .exchangeSetPeer exchange _ => exchange
  | .exchangeFree exchange => some exchange
  | _ => none

namespace World

def empty : World := ⟨.empty, .empty⟩

def call [ModularInverse] [Libcrypto] (world : World) : ExchangeCall → ExchangeResult × World
  | .keyNew provider rustAllocates zallocates =>
    let (pointer, keys) :=
      world.keys.insertOption (x301KeyNew provider rustAllocates zallocates).value
    (.pointer pointer, { world with keys })
  | .keyImport key selection params =>
    let (status, object) := (x301KeyImport (world.keys.deref key) selection params).value
    (.status status, { world with keys := world.keys.write key object })
  | .keySetParams key params =>
    let (status, object) := (x301KeySetParams (world.keys.deref key) params).value
    (.status status, { world with keys := world.keys.write key object })
  | .keyFree key => (.void, { world with keys := world.keys.free key })
  | .exchangeNew provider rustAllocates zallocates =>
    let (pointer, exchanges) :=
      world.exchanges.insertOption (x301ExchangeNew provider rustAllocates zallocates).value
    (.pointer pointer, { world with exchanges })
  | .exchangeInit exchange key params =>
    let (status, object) :=
      (x301ExchangeInit (world.exchanges.deref exchange) (world.keys.deref key) params).value
    (.status status, { world with exchanges := world.exchanges.write exchange object })
  | .exchangeSetPeer exchange peer =>
    let (status, object) :=
      (x301ExchangeSetPeer (world.exchanges.deref exchange) (world.keys.deref peer)).value
    (.status status, { world with exchanges := world.exchanges.write exchange object })
  | .exchangeDuplicate source rustAllocates zallocates =>
    let (pointer, exchanges) := world.exchanges.insertOption
      (x301ExchangeDuplicate (world.exchanges.deref source) rustAllocates zallocates).value
    (.pointer pointer, { world with exchanges })
  | .exchangeDerive exchange n secret secretLength =>
    (.derived n (x301ExchangeDerive (world.exchanges.deref exchange) secret secretLength).value,
      world)
  | .exchangeFree exchange => (.void, { world with exchanges := world.exchanges.free exchange })

/-- The private value of a key object at this moment. -/
def heldPrivate (world : World) (key : Option Handle) : Option (Bytes 38) :=
  ((world.keys.deref key).bind KeyObject.inner).bind X301Key.privateKey

def heldPublic (world : World) (key : Option Handle) : Option (Bytes 38) :=
  ((world.keys.deref key).bind KeyObject.inner).bind X301Key.publicKey

end World

/-- What each context captured: own private values and peer public values. -/
abbrev Lineages := Handle → List (Capture (Bytes 38) (Bytes 38))

/-- The logs after a call; only successful calls are recorded. -/
def record (before : World) (lineages : Lineages) : ExchangeCall → ExchangeResult → Lineages
  | .exchangeNew _ _ _, .pointer (some exchange) => Function.update lineages exchange []
  | .exchangeInit (some exchange) key _, .status status =>
    if status = 1 then Function.update lineages exchange
      (lineages exchange ++ ((before.heldPrivate key).map Capture.own).toList)
    else lineages
  | .exchangeSetPeer (some exchange) peer, .status status =>
    if status = 1 then Function.update lineages exchange
      (lineages exchange ++ ((before.heldPublic peer).map Capture.peer).toList)
    else lineages
  | .exchangeDuplicate (some source) _ _, .pointer (some exchange) =>
    Function.update lineages exchange (lineages source)
  | _, _ => lineages

/-- A world with the logs of its contexts. -/
structure ExchangeRun where
  world : World
  lineages : Lineages

namespace ExchangeRun

def start : ExchangeRun := ⟨.empty, fun _ => []⟩

def step [ModularInverse] [Libcrypto] (run : ExchangeRun) (next : ExchangeCall) : ExchangeRun :=
  let (result, world) := run.world.call next
  ⟨world, record run.world run.lineages next result⟩

def steps [ModularInverse] [Libcrypto] (run : ExchangeRun) (calls : List ExchangeCall) :
    ExchangeRun := calls.foldl step run

end ExchangeRun

namespace Shim

variable {exchange : Option ExchangeObject} {key : Option KeyObject}

/-- An operation that fails without effect or stores a value it found in the key, behind the
checks of the two wrappers. -/
theorem captureKey_cases {failure : String}
    {operation : Option X301Exchange → Option X301Key → ℤ × Option X301Exchange}
    {found : X301Key → Bytes 38 → Prop} {stored : X301Exchange → Bytes 38 → X301Exchange}
    (hOperation : ∀ inner keyInner,
      operation (some inner) (some keyInner) = (0, some inner) ∨
        ∃ value, found keyInner value ∧
          operation (some inner) (some keyInner) = (1, some (stored inner value))) :
    (∃ status, status ≠ 1 ∧ (captureKey exchange key operation failure).value =
        (status, exchange)) ∨
      ∃ provider inner keyProvider keyInner value, exchange = some ⟨some provider, some inner⟩ ∧
        key = some ⟨keyProvider, some keyInner⟩ ∧ found keyInner value ∧
        (captureKey exchange key operation failure).value =
          (1, some ⟨some provider, some (stored inner value)⟩) := by
  rcases exchange with _ | ⟨_ | provider, _ | inner⟩
  · exact Or.inl ⟨0, by decide, rfl⟩
  · exact Or.inl ⟨0, by decide, rfl⟩
  · exact Or.inl ⟨0, by decide, rfl⟩
  · exact Or.inl ⟨0, by decide, rfl⟩
  · rcases key with _ | ⟨keyProvider, _ | keyInner⟩
    · exact Or.inl ⟨0, by decide, rfl⟩
    · exact Or.inl ⟨0, by decide, rfl⟩
    · cases hSame : sameProvider (some provider) keyProvider with
      | false => exact Or.inl ⟨0, by decide, by simp [captureKey, hSame]⟩
      | true =>
        obtain hFailed | ⟨value, hFound, hStored⟩ := hOperation inner keyInner
        · exact Or.inl ⟨0, by decide, by simp [captureKey, hSame, hFailed]⟩
        · exact Or.inr ⟨provider, inner, keyProvider, keyInner, value, rfl, rfl, hFound,
            by simp [captureKey, hSame, hStored]⟩

theorem x301ExchangeInit_cases (params : ParamArray) :
    (∃ status, status ≠ 1 ∧ (x301ExchangeInit exchange key params).value = (status, exchange)) ∨
      ∃ provider inner keyProvider keyInner secret,
        exchange = some ⟨some provider, some inner⟩ ∧ key = some ⟨keyProvider, some keyInner⟩ ∧
        keyInner.privateKey = some secret ∧
        (x301ExchangeInit exchange key params).value =
          (1, some ⟨some provider, some ⟨some secret, none⟩⟩) := by
  rw [x301ExchangeInit]
  split_ifs
  · apply captureKey_cases
    intro inner keyInner
    exact (Rust.exchangeInit_cases inner keyInner).imp_left And.right
  · exact Or.inl ⟨0, by decide, rfl⟩

theorem x301ExchangeSetPeer_cases :
    (∃ status, status ≠ 1 ∧ (x301ExchangeSetPeer exchange key).value = (status, exchange)) ∨
      ∃ provider inner keyProvider keyInner encoded,
        exchange = some ⟨some provider, some inner⟩ ∧ key = some ⟨keyProvider, some keyInner⟩ ∧
        keyInner.publicKey = some encoded ∧
        (x301ExchangeSetPeer exchange key).value =
          (1, some ⟨some provider, some { inner with peerPublic := some encoded }⟩) :=
  captureKey_cases Rust.exchangeSetPeer_cases

theorem wrapExchange_cases (provider : Option ProviderContext) (inner : X301Exchange)
    (zallocates : Bool) : (wrapExchange provider (some inner) zallocates).value = none ∨
      ∃ context, provider = some context ∧ (wrapExchange provider (some inner) zallocates).value =
        some ⟨some context, some inner⟩ := by
  cases provider with
  | none => exact Or.inl rfl
  | some context =>
    simp only [wrapExchange, wrap]
    split_ifs
    · exact Or.inl rfl
    · exact Or.inr ⟨context, rfl, rfl⟩
    · exact Or.inl rfl

theorem x301ExchangeNew_cases (provider : Option ProviderContext) (rustAllocates zallocates : Bool) :
    (x301ExchangeNew provider rustAllocates zallocates).value = none ∨
      ∃ context, (x301ExchangeNew provider rustAllocates zallocates).value =
        some ⟨some context, some ⟨none, none⟩⟩ := by
  cases provider with
  | none => exact Or.inl rfl
  | some context =>
    simp only [x301ExchangeNew, Rust.exchangeNew, Rust.tryBox]
    split_ifs
    · exact Or.inl rfl
    · rcases wrapExchange_cases (some context) ⟨none, none⟩ zallocates with
        hNone | ⟨_, -, hSome⟩
      · exact Or.inl hNone
      · exact Or.inr ⟨_, hSome⟩
    · exact Or.inl rfl

theorem x301ExchangeDuplicate_cases (source : Option ExchangeObject)
    (rustAllocates zallocates : Bool) :
    (x301ExchangeDuplicate source rustAllocates zallocates).value = none ∨
      ∃ object, source = some object ∧
        (x301ExchangeDuplicate source rustAllocates zallocates).value = some object := by
  rcases source with _ | ⟨_ | provider, _ | inner⟩
  · exact Or.inl rfl
  · exact Or.inl rfl
  · exact Or.inl rfl
  · exact Or.inl rfl
  · simp only [x301ExchangeDuplicate, Rust.exchangeDuplicate, Option.bind_some, Rust.tryBox]
    cases rustAllocates with
    | false => exact Or.inl rfl
    | true =>
      rcases wrapExchange_cases (some provider) inner zallocates with hNone | ⟨_, hContext, hSome⟩
      · exact Or.inl hNone
      · obtain rfl := Option.some.inj hContext
        exact Or.inr ⟨_, rfl, hSome⟩

theorem x301ExchangeDerive_failed [ModularInverse] {n : ℕ} (secret : Option (Bytes n))
    (secretLength : Option ℕ)
    (h : (x301ExchangeDerive exchange secret secretLength).value.status ≠ 1) :
    (x301ExchangeDerive exchange secret secretLength).value.secret = secret := by
  rcases exchange with _ | ⟨_ | provider, _ | inner⟩
  · rfl
  · rfl
  · rfl
  · rfl
  · cases secretLength with
    | none =>
      rfl
    | some length =>
      cases secret with
      | none =>
        rfl
      | some secret =>
        simp only [x301ExchangeDerive] at h ⊢
        split_ifs at h ⊢ with hShort
        · rfl
        · split at h
          · exact absurd rfl h
          · rfl

theorem x301ExchangeDerive_ok [ModularInverse] {n : ℕ} {provider : ProviderContext}
    {secret peerPublic shared : Bytes 38} (buffer : Bytes n) (secretLength : ℕ) (hn : 38 ≤ n)
    (h : x301 secret.1 peerPublic.1 = .ok shared) :
    ∃ written : Bytes n, written.1 = shared.1 ++ buffer.1.drop 38 ∧
      (x301ExchangeDerive (some ⟨some provider, some ⟨some secret, some peerPublic⟩⟩)
        (some buffer) (some secretLength)).value = ⟨1, some written, some 38⟩ := by
  have hLength : (shared.1 ++ buffer.1.drop 38).length = n := by
    rw [List.length_append, List.length_drop, shared.2, buffer.2]
    omega
  refine ⟨⟨_, hLength⟩, rfl, ?_⟩
  simp only [x301ExchangeDerive, dif_neg (not_lt.mpr hn), Rust.exchangeDerive_of_ok h]

theorem x301ExchangeDerive_not_ok [ModularInverse] {n : ℕ} {provider : ProviderContext}
    {inner : X301Exchange} (buffer : Bytes n) (secretLength : ℕ) (hn : 38 ≤ n)
    (h : ∀ secret peerPublic shared, inner = ⟨some secret, some peerPublic⟩ →
      x301 secret.1 peerPublic.1 ≠ .ok shared) :
    (x301ExchangeDerive (some ⟨some provider, some inner⟩) (some buffer)
      (some secretLength)).value = ⟨0, some buffer, some 0⟩ := by
  simp only [x301ExchangeDerive, dif_neg (not_lt.mpr hn), Rust.exchangeDerive_of_not_ok h]

end Shim

namespace ExchangeRun

variable {run : ExchangeRun} {handle : Handle} {object : ExchangeObject}

/-- The context holds what its log replays to. -/
def Holds (object : ExchangeObject) (log : List (Capture (Bytes 38) (Bytes 38))) : Prop :=
  ∃ provider inner, object = ⟨some provider, some inner⟩ ∧
    (inner.privateKey, inner.peerPublic) = Capture.replay log

def Tracks (exchanges : ObjectStore ExchangeObject) (lineages : Lineages) : Prop :=
  ∀ handle object, exchanges.get handle = some object → Holds object (lineages handle)

variable {exchanges : ObjectStore ExchangeObject} {lineages : Lineages}

theorem Tracks.insert {log : List (Capture (Bytes 38) (Bytes 38))}
    (h : Tracks exchanges lineages) (hNew : Holds object log) :
    Tracks (exchanges.insert object) (Function.update lineages exchanges.next log) := by
  intro at' found hGet
  by_cases hNext : at' = exchanges.next
  · subst hNext
    rw [ObjectStore.get_insert_next] at hGet
    rw [Function.update_self]
    exact Option.some.inj hGet ▸ hNew
  · rw [ObjectStore.get_insert_of_ne hNext] at hGet
    rw [Function.update_of_ne hNext]
    exact h at' found hGet

theorem Tracks.capture {capture : Capture (Bytes 38) (Bytes 38)} {new : ExchangeObject}
    (h : Tracks exchanges lineages)
    (hNew : Holds new (lineages handle ++ [capture])) :
    Tracks (exchanges.write (some handle) (some new))
      (Function.update lineages handle (lineages handle ++ [capture])) := by
  intro at' found hGet
  by_cases hSame : at' = handle
  · subst hSame
    rw [ObjectStore.get_write_some] at hGet
    obtain ⟨old, -, rfl⟩ := Option.map_eq_some_iff.mp hGet
    rw [Function.update_self]
    exact hNew
  · rw [ObjectStore.get_write_of_ne _ (fun hEq => hSame (Option.some.inj hEq).symm)] at hGet
    rw [Function.update_of_ne hSame]
    exact h at' found hGet

theorem Tracks.free (h : Tracks exchanges lineages) : Tracks (exchanges.free handle) lineages := by
  intro at' found hGet
  by_cases hSame : at' = handle
  · rw [hSame, ObjectStore.get_free_self] at hGet
    cases hGet
  · rw [ObjectStore.get_free_of_ne hSame] at hGet
    exact h at' found hGet

variable [ModularInverse] [Libcrypto]

/-- What one call preserves. -/
theorem step_tracks (h : Tracks run.world.exchanges run.lineages) (next : ExchangeCall) :
    Tracks (run.step next).world.exchanges (run.step next).lineages := by
  cases next with
  | keyNew provider rustAllocates zallocates => exact h
  | keyImport key selection params => exact h
  | keySetParams key params => exact h
  | keyFree key => exact h
  | exchangeDerive exchange n secret secretLength => exact h
  | exchangeFree exchange => exact h.free
  | exchangeNew provider rustAllocates zallocates =>
    rcases x301ExchangeNew_cases provider rustAllocates zallocates with hNone | ⟨context, hSome⟩
    · simp only [step, World.call, hNone]
      exact h
    · simp only [step, World.call, hSome]
      exact h.insert ⟨context, ⟨none, none⟩, rfl, rfl⟩
  | exchangeDuplicate source rustAllocates zallocates =>
    rcases x301ExchangeDuplicate_cases (run.world.exchanges.deref source) rustAllocates
      zallocates with hNone | ⟨object, hSource, hSome⟩
    · simp only [step, World.call, hNone]
      cases source with
      | none => exact h
      | some source => exact h
    · cases source with
      | none => cases hSource
      | some source =>
        simp only [step, World.call, hSome]
        exact h.insert (h source object hSource)
  | exchangeInit exchange key params =>
    rcases @x301ExchangeInit_cases (run.world.exchanges.deref exchange) (run.world.keys.deref key)
      params with ⟨status, hStatus, hValue⟩ |
        ⟨provider, inner, keyProvider, keyInner, secret, hExchange, hKey, hSecret, hValue⟩
    · simp only [step, World.call, hValue, ObjectStore.write_deref]
      cases exchange with
      | none => exact h
      | some exchange =>
        simp only [record, if_neg hStatus]
        exact h
    · cases exchange with
      | none => cases hExchange
      | some exchange =>
        have hHeld : run.world.heldPrivate key = some secret := by
          rw [World.heldPrivate, hKey]
          exact hSecret
        simp only [step, World.call, hValue, record, if_true, hHeld]
        apply h.capture
        refine ⟨provider, _, rfl, ?_⟩
        rw [Capture.replay_concat]
        rfl
  | exchangeSetPeer exchange peer =>
    rcases @x301ExchangeSetPeer_cases (run.world.exchanges.deref exchange)
      (run.world.keys.deref peer) with ⟨status, hStatus, hValue⟩ |
        ⟨provider, inner, keyProvider, keyInner, encoded, hExchange, hPeer, hPublic, hValue⟩
    · simp only [step, World.call, hValue, ObjectStore.write_deref]
      cases exchange with
      | none => exact h
      | some exchange =>
        simp only [record, if_neg hStatus]
        exact h
    · cases exchange with
      | none => cases hExchange
      | some exchange =>
        have hHeld : run.world.heldPublic peer = some encoded := by
          rw [World.heldPublic, hPeer]
          exact hPublic
        obtain ⟨_, _, hObject, hReplay⟩ := h exchange _ hExchange
        obtain ⟨-, hInner⟩ := ExchangeObject.mk.inj hObject
        obtain rfl := Option.some.inj hInner
        simp only [step, World.call, hValue, record, if_true, hHeld]
        apply h.capture
        refine ⟨provider, _, rfl, ?_⟩
        rw [Capture.replay_concat, ← hReplay]
        rfl

theorem steps_tracks (calls : List ExchangeCall) (h : Tracks run.world.exchanges run.lineages) :
    Tracks (run.steps calls).world.exchanges (run.steps calls).lineages := by
  induction calls generalizing run with
  | nil => exact h
  | cons next calls ih => exact ih (step_tracks h next)

theorem start_tracks (calls : List ExchangeCall) :
    Tracks (start.steps calls).world.exchanges (start.steps calls).lineages :=
  steps_tracks calls (by rintro handle object ⟨⟩)

theorem call_frame (next : ExchangeCall) (hContext : next.context ≠ some handle)
    (hGet : run.world.exchanges.get handle = some object) :
    (run.world.call next).2.exchanges.get handle = some object := by
  cases next with
  | keyNew provider rustAllocates zallocates => exact hGet
  | keyImport key selection params => exact hGet
  | keySetParams key params => exact hGet
  | keyFree key => exact hGet
  | exchangeDerive exchange n secret secretLength => exact hGet
  | exchangeNew provider rustAllocates zallocates => exact ObjectStore.get_insertOption_of_some hGet
  | exchangeDuplicate source rustAllocates zallocates =>
    exact ObjectStore.get_insertOption_of_some hGet
  | exchangeInit exchange key params => exact (ObjectStore.get_write_of_ne _ hContext).trans hGet
  | exchangeSetPeer exchange peer => exact (ObjectStore.get_write_of_ne _ hContext).trans hGet
  | exchangeFree exchange =>
    exact (ObjectStore.get_free_of_ne fun hEq => hContext (congrArg some hEq.symm)).trans hGet

theorem call_of_failed (next : ExchangeCall) (hFailed : (run.world.call next).1.Failed) :
    (run.world.call next).2.exchanges = run.world.exchanges := by
  cases next with
  | keyNew provider rustAllocates zallocates => rfl
  | keyImport key selection params => rfl
  | keySetParams key params => rfl
  | keyFree key => rfl
  | exchangeDerive exchange n secret secretLength => rfl
  | exchangeFree exchange => exact absurd hFailed id
  | exchangeNew provider rustAllocates zallocates =>
    exact ObjectStore.insertOption_of_none hFailed
  | exchangeDuplicate source rustAllocates zallocates =>
    exact ObjectStore.insertOption_of_none hFailed
  | exchangeInit exchange key params =>
    rcases @x301ExchangeInit_cases (run.world.exchanges.deref exchange) (run.world.keys.deref key)
      params with ⟨status, hStatus, hValue⟩ | ⟨_, _, _, _, _, -, -, -, hValue⟩
    · simp only [World.call, hValue]
      exact ObjectStore.write_deref exchange
    · simp only [World.call, hValue] at hFailed
      exact absurd rfl hFailed
  | exchangeSetPeer exchange peer =>
    rcases @x301ExchangeSetPeer_cases (run.world.exchanges.deref exchange)
      (run.world.keys.deref peer) with ⟨status, hStatus, hValue⟩ | ⟨_, _, _, _, _, -, -, -, hValue⟩
    · simp only [World.call, hValue]
      exact ObjectStore.write_deref exchange
    · simp only [World.call, hValue] at hFailed
      exact absurd rfl hFailed

omit [Libcrypto] in
theorem derive_of_holds {log : List (Capture (Bytes 38) (Bytes 38))} (hHolds : Holds object log)
    {n : ℕ} (hn : 38 ≤ n) (buffer : Bytes n) (secretLength : ℕ) :
    ((x301ExchangeDerive (some object) (some buffer) (some secretLength)).value.status = 1 ↔
      ∃ secret peerPublic shared, Capture.LastPair log secret peerPublic ∧
        x301 secret.1 peerPublic.1 = .ok shared) ∧
    ∀ secret peerPublic shared, Capture.LastPair log secret peerPublic →
      x301 secret.1 peerPublic.1 = .ok shared → ∃ written : Bytes n,
        written.1 = shared.1 ++ buffer.1.drop 38 ∧
        (x301ExchangeDerive (some object) (some buffer) (some secretLength)).value =
          ⟨1, some written, some 38⟩ := by
  obtain ⟨provider, inner, rfl, hReplay⟩ := hHolds
  have hInner : ∀ secret peerPublic, inner = ⟨some secret, some peerPublic⟩ ↔
      Capture.LastPair log secret peerPublic := by
    intro secret peerPublic
    rw [← Capture.replay_eq_iff, ← hReplay, Prod.mk.injEq]
    obtain ⟨_, _⟩ := inner
    rw [X301Exchange.mk.injEq]
  have hOk : ∀ secret peerPublic shared, Capture.LastPair log secret peerPublic →
      x301 secret.1 peerPublic.1 = .ok shared → ∃ written : Bytes n,
        written.1 = shared.1 ++ buffer.1.drop 38 ∧
        (x301ExchangeDerive (some ⟨some provider, some inner⟩) (some buffer)
          (some secretLength)).value = ⟨1, some written, some 38⟩ := by
    intro secret peerPublic shared hLast hShared
    rw [(hInner secret peerPublic).mpr hLast]
    exact x301ExchangeDerive_ok buffer secretLength hn hShared
  refine ⟨⟨?_, ?_⟩, hOk⟩
  · intro hStatus
    by_contra hNone
    rw [x301ExchangeDerive_not_ok buffer secretLength hn (by
      intro secret peerPublic shared hEq hShared
      exact hNone ⟨secret, peerPublic, shared, (hInner secret peerPublic).mp hEq, hShared⟩)]
      at hStatus
    cases hStatus
  · rintro ⟨secret, peerPublic, shared, hLast, hShared⟩
    obtain ⟨written, -, hValue⟩ := hOk secret peerPublic shared hLast hShared
    rw [hValue]

/-- The log of a context that was initialized and has no peer since. -/
def NoPeer (run : ExchangeRun) (handle : Handle) : Prop :=
  handle < run.world.exchanges.next ∧ ∃ earlier secret,
    run.lineages handle = earlier ++ [.own secret]

theorem lineage_frame (next : ExchangeCall) (hLt : handle < run.world.exchanges.next)
    (hContext : next.context ≠ some handle) :
    (run.step next).lineages handle = run.lineages handle := by
  cases next with
  | keyNew provider rustAllocates zallocates => rfl
  | keyImport key selection params => rfl
  | keySetParams key params => rfl
  | keyFree key => rfl
  | exchangeDerive exchange n secret secretLength => rfl
  | exchangeFree exchange => rfl
  | exchangeNew provider rustAllocates zallocates =>
    simp only [step, World.call]
    cases hPointer : (run.world.exchanges.insertOption
        (x301ExchangeNew provider rustAllocates zallocates).value).1 with
    | none => rfl
    | some fresh =>
      rw [ObjectStore.eq_next_of_insertOption hPointer]
      exact Function.update_of_ne hLt.ne _ _
  | exchangeDuplicate source rustAllocates zallocates =>
    cases source with
    | none => rfl
    | some source =>
      simp only [step, World.call]
      cases hPointer : (run.world.exchanges.insertOption (x301ExchangeDuplicate
          (run.world.exchanges.deref (some source)) rustAllocates zallocates).value).1 with
      | none => rfl
      | some fresh =>
        rw [ObjectStore.eq_next_of_insertOption hPointer]
        exact Function.update_of_ne hLt.ne _ _
  | exchangeInit exchange key params =>
    cases exchange with
    | none => rfl
    | some exchange =>
      have hNe : handle ≠ exchange := fun hEq => hContext (congrArg some hEq.symm)
      simp only [step, World.call, record]
      split_ifs
      · exact Function.update_of_ne hNe _ _
      · rfl
  | exchangeSetPeer exchange peer =>
    cases exchange with
    | none => rfl
    | some exchange =>
      have hNe : handle ≠ exchange := fun hEq => hContext (congrArg some hEq.symm)
      simp only [step, World.call, record]
      split_ifs
      · exact Function.update_of_ne hNe _ _
      · rfl

theorem next_le_step (next : ExchangeCall) :
    run.world.exchanges.next ≤ (run.step next).world.exchanges.next := by
  cases next with
  | keyNew provider rustAllocates zallocates => exact le_rfl
  | keyImport key selection params => exact le_rfl
  | keySetParams key params => exact le_rfl
  | keyFree key => exact le_rfl
  | exchangeDerive exchange n secret secretLength => exact le_rfl
  | exchangeFree exchange => exact ObjectStore.next_free.ge
  | exchangeNew provider rustAllocates zallocates => exact ObjectStore.next_le_insertOption _
  | exchangeDuplicate source rustAllocates zallocates => exact ObjectStore.next_le_insertOption _
  | exchangeInit exchange key params => exact (ObjectStore.next_write _ _).ge
  | exchangeSetPeer exchange peer => exact (ObjectStore.next_write _ _).ge

theorem lineage_of_init {key : Option Handle} {params : ParamArray}
    (hStatus : (run.world.call (.exchangeInit (some handle) key params)).1 = .status 1) :
    handle < run.world.exchanges.next ∧ ∃ secret,
      (run.step (.exchangeInit (some handle) key params)).lineages handle =
        run.lineages handle ++ [.own secret] := by
  rcases @x301ExchangeInit_cases (run.world.exchanges.deref (some handle))
    (run.world.keys.deref key) params with ⟨status, hNe, hValue⟩ |
      ⟨_, _, _, _, secret, hExchange, hKey, hSecret, hValue⟩
  · simp only [World.call, hValue] at hStatus
    exact absurd (ExchangeResult.status.inj hStatus) hNe
  · have hHeld : run.world.heldPrivate key = some secret := by
      rw [World.heldPrivate, hKey]
      exact hSecret
    refine ⟨ObjectStore.lt_next hExchange, secret, ?_⟩
    simp only [step, World.call, hValue, record, if_true, hHeld, Function.update_self]
    rfl

theorem noPeer_of_init {key : Option Handle} {params : ParamArray}
    (hStatus : (run.world.call (.exchangeInit (some handle) key params)).1 = .status 1) :
    NoPeer (run.step (.exchangeInit (some handle) key params)) handle := by
  obtain ⟨hLt, secret, hLog⟩ := lineage_of_init hStatus
  exact ⟨hLt.trans_le (next_le_step _), _, secret, hLog⟩

theorem NoPeer.step (h : NoPeer run handle) (next : ExchangeCall)
    (hQuiet : ∀ peer, next = .exchangeSetPeer (some handle) peer →
      (run.world.call next).1.Failed) : NoPeer (run.step next) handle := by
  by_cases hContext : next.context = some handle
  · cases next with
    | keyNew provider rustAllocates zallocates => cases hContext
    | keyImport key selection params => cases hContext
    | keySetParams key params => cases hContext
    | keyFree key => cases hContext
    | exchangeNew provider rustAllocates zallocates => cases hContext
    | exchangeDuplicate source rustAllocates zallocates => cases hContext
    | exchangeDerive exchange n secret secretLength => cases hContext
    | exchangeFree exchange => exact ⟨h.1.trans_le (next_le_step _), h.2⟩
    | exchangeInit exchange key params =>
      obtain rfl : exchange = some handle := hContext
      by_cases hStatus :
          (run.world.call (.exchangeInit (some handle) key params)).1 = .status 1
      · exact noPeer_of_init hStatus
      · refine ⟨h.1.trans_le (next_le_step _), ?_⟩
        have hNe : (x301ExchangeInit (run.world.exchanges.deref (some handle))
            (run.world.keys.deref key) params).value.1 ≠ 1 :=
          fun hEq => hStatus (congrArg ExchangeResult.status hEq)
        simp only [ExchangeRun.step, World.call, record, if_neg hNe]
        exact h.2
    | exchangeSetPeer exchange peer =>
      obtain rfl : exchange = some handle := hContext
      refine ⟨h.1.trans_le (next_le_step _), ?_⟩
      have hNe : (x301ExchangeSetPeer (run.world.exchanges.deref (some handle))
          (run.world.keys.deref peer)).value.1 ≠ 1 := hQuiet peer rfl
      simp only [ExchangeRun.step, World.call, record, if_neg hNe]
      exact h.2
  · refine ⟨h.1.trans_le (next_le_step _), ?_⟩
    rw [lineage_frame next h.1 hContext]
    exact h.2

/-- No call captured a peer for this context. -/
def Quiet (run : ExchangeRun) (handle : Handle) (calls : List ExchangeCall) : Prop :=
  ∀ before peer after, calls = before ++ .exchangeSetPeer (some handle) peer :: after →
    ((run.steps before).world.call (.exchangeSetPeer (some handle) peer)).1.Failed

theorem NoPeer.steps (calls : List ExchangeCall) (h : NoPeer run handle)
    (hQuiet : Quiet run handle calls) : NoPeer (run.steps calls) handle := by
  induction calls generalizing run with
  | nil => exact h
  | cons next calls ih =>
    apply ih (h.step next _)
    · intro before peer after hCalls
      exact hQuiet (next :: before) peer after (congrArg (next :: ·) hCalls)
    · rintro peer rfl
      exact hQuiet [] peer calls rfl

omit [Libcrypto] in
theorem derive_of_noPeer (hTracks : Tracks run.world.exchanges run.lineages)
    (h : NoPeer run handle) {n : ℕ} (hn : 38 ≤ n) (buffer : Bytes n) (secretLength : ℕ) :
    (x301ExchangeDerive (run.world.exchanges.get handle) (some buffer)
      (some secretLength)).value.status ≠ 1 := by
  cases hGet : run.world.exchanges.get handle with
  | none => exact zero_ne_one
  | some object =>
    intro hStatus
    obtain ⟨secret, peerPublic, shared, hLast, -⟩ :=
      (derive_of_holds (hTracks handle object hGet) hn buffer secretLength).1.mp hStatus
    obtain ⟨earlier, own, hLog⟩ := h.2
    rw [← Capture.replay_eq_iff, hLog, Capture.replay_concat] at hLast
    cases hLast

/-- After any calls: a derivation succeeds exactly when the lineage of the context ends with a
peer captured after its last own value and the ladder accepts the pair, and it writes those bytes
and no others; a failed call changes no context and no secret buffer; an initialized context
derives nothing before it captures a new peer; and a call changes no context but its own. -/
theorem exchange_refines_lineage (calls : List ExchangeCall) :
    (∀ handle object, (start.steps calls).world.exchanges.get handle = some object →
      ∀ n, 38 ≤ n → ∀ (buffer : Bytes n) (secretLength : ℕ),
        ((x301ExchangeDerive (some object) (some buffer) (some secretLength)).value.status = 1 ↔
          ∃ secret peerPublic shared,
            Capture.LastPair ((start.steps calls).lineages handle) secret peerPublic ∧
            x301 secret.1 peerPublic.1 = .ok shared) ∧
        ∀ secret peerPublic shared,
          Capture.LastPair ((start.steps calls).lineages handle) secret peerPublic →
          x301 secret.1 peerPublic.1 = .ok shared → ∃ written : Bytes n,
            written.1 = shared.1 ++ buffer.1.drop 38 ∧
            (x301ExchangeDerive (some object) (some buffer) (some secretLength)).value =
              ⟨1, some written, some 38⟩) ∧
    (∀ next, ((start.steps calls).world.call next).1.Failed →
      (∀ handle, ((start.steps calls).world.call next).2.exchanges.get handle =
        (start.steps calls).world.exchanges.get handle) ∧
      ∀ exchange n secret secretLength, next = .exchangeDerive exchange n secret secretLength →
        (x301ExchangeDerive ((start.steps calls).world.exchanges.deref exchange) secret
          secretLength).value.secret = secret) ∧
    (∀ handle key params later,
      ((start.steps calls).world.call (.exchangeInit (some handle) key params)).1 = .status 1 →
      Quiet ((start.steps calls).step (.exchangeInit (some handle) key params)) handle later →
      ∀ n, 38 ≤ n → ∀ (buffer : Bytes n) (secretLength : ℕ),
        (x301ExchangeDerive ((((start.steps calls).step
          (.exchangeInit (some handle) key params)).steps later).world.exchanges.get handle)
          (some buffer) (some secretLength)).value.status ≠ 1) ∧
    ∀ next handle object, next.context ≠ some handle →
      (start.steps calls).world.exchanges.get handle = some object →
      ((start.steps calls).world.call next).2.exchanges.get handle = some object := by
  have hTracks := start_tracks calls
  refine ⟨?_, ?_, ?_, ?_⟩
  · intro handle object hGet n hn buffer secretLength
    exact derive_of_holds (hTracks handle object hGet) hn buffer secretLength
  · intro next hFailed
    constructor
    · intro handle
      rw [call_of_failed next hFailed]
    · rintro exchange n secret secretLength rfl
      exact x301ExchangeDerive_failed secret secretLength hFailed
  · intro handle key params later hStatus hQuiet n hn buffer secretLength
    exact derive_of_noPeer (steps_tracks later (step_tracks hTracks _))
      ((noPeer_of_init hStatus).steps later hQuiet) hn buffer secretLength
  · intro next handle object hContext hGet
    exact call_frame next hContext hGet

end ExchangeRun

end X301Provider
