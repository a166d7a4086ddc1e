import X301Provider.Library.ObjectStore
import X301Provider.Library.ReadWriteLock
import X301Provider.Library.ResourceAccount

/-!
# The provider-owned DRBG

One locked generator for all threads, created on first use. A call is a sequence of steps
on the provider context, and the steps of any number of calls interleave; what libcrypto
answers is up to the environment of each step.
-/

namespace X301Provider

/-- What `x301_drbg_new` acquires, by the attempt that acquired it. -/
inductive DrbgResource
  | algorithm (attempt : ℕ)
  | context (attempt : ℕ)
  deriving DecidableEq

namespace DrbgResource

def attempt : DrbgResource → ℕ
  | .algorithm attempt => attempt
  | .context attempt => attempt

end DrbgResource

/-- The answers of the RAND functions to one attempt. -/
structure RandOutcomes where
  getPrimary : Bool
  fetch : String → Bool
  contextNew : Bool
  enableLocking : Bool
  instantiate : ℕ → String → Bool
  generate : ℕ → ℕ → ℤ

abbrev DrbgTrace := List (ResourceEvent DrbgResource)

def securityBits : ℕ := 149

/-- `x301_drbg_new` with what it acquires and releases on the way. -/
def drbgNew (attempt : ℕ) (rand : RandOutcomes) : Option Handle × DrbgTrace :=
  if !rand.getPrimary then (none, [])
  else if !rand.fetch "CTR-DRBG" then (none, [])
  else if !rand.contextNew then
    (none, [.acquired (.algorithm attempt), .released (.algorithm attempt)])
  else
    let trace : DrbgTrace := [.acquired (.algorithm attempt), .acquired (.context attempt),
      .released (.algorithm attempt)]
    if !rand.enableLocking || !rand.instantiate securityBits "AES-256-CTR" then
      (none, trace ++ [.released (.context attempt)])
    else (some attempt, trace)

/-- `x301_drbg_free`. -/
def drbgFree (drbg : Option Handle) : DrbgTrace :=
  match drbg with
  | none => []
  | some context => [.released (.context context)]

/-- Where a thread stands in `x301_fill_random` and the `x301_drbg_get` inside it. -/
inductive DrbgCall
  | idle
  | entering
  | reading
  | readDone (drbg : Option Handle)
  | missing
  | writing
  | creating
  | storing (drbg : Option Handle)
  | writeDone (drbg : Option Handle)
  | returned (drbg : Option Handle)
  deriving DecidableEq

namespace DrbgCall

def hold : DrbgCall → Hold
  | .reading | .readDone _ => .read
  | .writing | .creating | .storing _ | .writeDone _ => .write
  | _ => .nothing

/-- The context that a thread took from the provider or put there. -/
def known : DrbgCall → Option Handle
  | .readDone drbg | .writeDone drbg | .returned drbg => drbg
  | _ => none

end DrbgCall

/-- A finished call: the context that `x301_drbg_get` returned and the status of the call. -/
structure FilledRandom where
  drbg : Option Handle
  status : Bool

/-- The fields of the provider context that the calls use, and the calls. -/
structure DrbgWorld (τ : Type) where
  hasLibctx : Bool
  hasLock : Bool
  lock : RwLock τ
  drbg : Option Handle
  attempts : ℕ
  trace : DrbgTrace
  calls : τ → DrbgCall
  finished : List FilledRandom

/-- What one step of a thread meets: its arguments, whether the lock function succeeds, and the
answers of the RAND functions. -/
structure DrbgEnvironment where
  outputIsNull : Bool
  outputLength : ℕ
  locks : Bool
  rand : RandOutcomes

namespace DrbgWorld

variable {τ : Type} [DecidableEq τ]

/-- A provider context as `x301_shim_init` leaves it. -/
def initial (hasLibctx hasLock : Bool) : DrbgWorld τ :=
  ⟨hasLibctx, hasLock, .unlocked, none, 0, [], fun _ => .idle, []⟩

def goto (world : DrbgWorld τ) (t : τ) (call : DrbgCall) : DrbgWorld τ :=
  { world with calls := Function.update world.calls t call }

def finish (world : DrbgWorld τ) (t : τ) (drbg : Option Handle) (status : Bool) : DrbgWorld τ :=
  { world.goto t .idle with finished := world.finished ++ [⟨drbg, status⟩] }

/-- A thread that has to wait for the lock stays where it is. -/
def step (world : DrbgWorld τ) (t : τ) (environment : DrbgEnvironment) : DrbgWorld τ :=
  match world.calls t with
  | .idle =>
    if environment.outputIsNull || environment.outputLength != 38 then world.finish t none false
    else if !world.hasLibctx || !world.hasLock then world.goto t (.returned none)
    else world.goto t .entering
  | .entering =>
    if !environment.locks then world.goto t (.returned none)
    else
      match world.lock.read t with
      | none => world
      | some lock => { world.goto t .reading with lock }
  | .reading => world.goto t (.readDone world.drbg)
  | .readDone drbg =>
    let world := { world with lock := world.lock.unlock t }
    match drbg with
    | some context => world.goto t (.returned (some context))
    | none => world.goto t .missing
  | .missing =>
    if !environment.locks then world.goto t (.returned none)
    else
      match world.lock.write t with
      | none => world
      | some lock => { world.goto t .writing with lock }
  | .writing =>
    match world.drbg with
    | some context => world.goto t (.writeDone (some context))
    | none => world.goto t .creating
  | .creating =>
    let (drbg, events) := drbgNew world.attempts environment.rand
    { world.goto t (.storing drbg) with
      attempts := world.attempts + 1, trace := world.trace ++ events }
  | .storing drbg => { world.goto t (.writeDone drbg) with drbg }
  | .writeDone drbg => { world.goto t (.returned drbg) with lock := world.lock.unlock t }
  | .returned none => world.finish t none false
  | .returned (some context) =>
    world.finish t (some context) (environment.rand.generate 38 securityBits == 1)

/-- The steps of all threads in the order of the scheduler. -/
def run (world : DrbgWorld τ) (schedule : List (τ × DrbgEnvironment)) : DrbgWorld τ :=
  schedule.foldl (fun world event => world.step event.1 event.2) world

/-- The generator part of `x301_provider_teardown`. -/
def teardown (world : DrbgWorld τ) : DrbgWorld τ :=
  { world with trace := world.trace ++ drbgFree world.drbg, drbg := none }

end DrbgWorld

end X301Provider
