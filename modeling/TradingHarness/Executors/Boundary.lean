import TradingHarness.Library.Runs
import TradingHarness.Library.Tracked

set_option autoImplicit false

/-! # The blocking executor boundary

`BlockingExecutorBoundary`, step by step. The two lines of `_acquire` and of `_release` are steps of their own, and
so is each step of the coroutine `run` and of the worker that runs `tracked_action`, so that the calls interleave
in any order. -/

namespace TradingHarness

/-! ## The boundary -/

/-- `bounded_worker_count`. The setting is what `int(…)` makes of the text, or of the default where there is none. -/
def boundedWorkerCount (setting : Option ℤ) (fallback maximum : ℤ) : ℤ :=
  match setting with
  | some value => min maximum (max 1 value)
  | none => fallback

def boundedQueueSize (setting : Option ℤ) (fallback maximum : ℤ) : ℤ :=
  match setting with
  | some value => min maximum (max 0 value)
  | none => fallback

theorem boundedWorkerCount_pos {fallback maximum : ℤ} (hfallback : 0 < fallback) (hmaximum : 0 < maximum)
    (setting : Option ℤ) : 0 < (boundedWorkerCount setting fallback maximum).toNat := by
  unfold boundedWorkerCount
  split <;> omega

/-- What a boundary is made with. Its pool has a worker. -/
structure Boundary where
  name : String
  workers : ℕ
  queueCapacity : ℕ
  hasWorker : 0 < workers

variable (workers queue : Option ℤ)

def publicSourceBoundary : Boundary where
  name := "public_source"
  workers := (boundedWorkerCount workers 12 64).toNat
  queueCapacity := (boundedQueueSize queue 16 128).toNat
  hasWorker := boundedWorkerCount_pos (by decide) (by decide) workers

def databaseExecutorBoundary : Boundary where
  name := "database"
  workers := (boundedWorkerCount workers 8 16).toNat
  queueCapacity := (boundedQueueSize queue 16 128).toNat
  hasWorker := boundedWorkerCount_pos (by decide) (by decide) workers

def realtimeVendorBoundary : Boundary where
  name := "realtime_vendor"
  workers := (boundedWorkerCount workers 8 32).toNat
  queueCapacity := (boundedQueueSize queue 8 64).toNat
  hasWorker := boundedWorkerCount_pos (by decide) (by decide) workers

def tdxShadowBoundary : Boundary := ⟨"tdx_shadow", 1, 0, Nat.one_pos⟩

def auctionCaptureBoundary : Boundary := ⟨"auction_capture", 1, 0, Nat.one_pos⟩

variable (boundary : Boundary) (change : ℤ)

/-- The initial value of `_slots`. -/
def Boundary.capacity : ℕ := boundary.workers + boundary.queueCapacity

/-! ## A call -/

/-- How `run` ends. -/
inductive CallExit
  | saturated
  | refused
  | returned
  | failed
  | timedOut
  | cancelled
  deriving DecidableEq

/-- Where the coroutine `run` of a call is. -/
inductive CallerAt
  /-- in `_acquire`, with a slot, before `_occupied` is raised -/
  | acquired
  /-- before `run_in_executor` -/
  | submitting
  /-- in `_release`, after `run_in_executor` raised -/
  | releasing
  /-- in `_release`, after `_occupied` was lowered -/
  | uncounted
  /-- at `wait_for` of the shielded future -/
  | waiting
  | ended (callExit : CallExit)
  deriving DecidableEq

/-- Where the worker that runs `tracked_action` of a call is. -/
inductive WorkerAt
  | absent
  | queued
  | running
  /-- the action returned or raised, before `_release` -/
  | releasing (failed : Bool)
  /-- in `_release`, after `_occupied` was lowered -/
  | uncounted (failed : Bool)
  | finished (failed : Bool)
  deriving DecidableEq

/-- A call of `run`. -/
structure Call where
  caller : CallerAt
  worker : WorkerAt := .absent
  deriving DecidableEq

/-- Who runs `_release`. -/
inductive CallThread
  | caller
  | worker
  deriving DecidableEq

/-- A step of one call. -/
inductive CallMove
  /-- `_occupied += 1` -/
  | count
  /-- `run_in_executor` returns -/
  | accept
  /-- `run_in_executor` raises -/
  | refuse
  /-- `_occupied -= 1` -/
  | lower (thread : CallThread)
  /-- `_slots.release()` -/
  | free (thread : CallThread)
  /-- the worker takes the action -/
  | start
  /-- the action returns or raises -/
  | finish (failed : Bool)
  /-- the caller is given the result of the future, or its exception -/
  | answer
  | timeOut
  | cancel
  deriving DecidableEq

/-- What a step of a call does to the call, where the call can take it. A caller that times out or is cancelled
    leaves the shielded future. -/
def CallMove.next : CallMove → Call → Option Call
  | .count, ⟨.acquired, worker⟩ => some ⟨.submitting, worker⟩
  | .accept, ⟨.submitting, _⟩ => some ⟨.waiting, .queued⟩
  | .refuse, ⟨.submitting, worker⟩ => some ⟨.releasing, worker⟩
  | .lower .caller, ⟨.releasing, worker⟩ => some ⟨.uncounted, worker⟩
  | .free .caller, ⟨.uncounted, worker⟩ => some ⟨.ended .refused, worker⟩
  | .start, ⟨caller, .queued⟩ => some ⟨caller, .running⟩
  | .finish failed, ⟨caller, .running⟩ => some ⟨caller, .releasing failed⟩
  | .lower .worker, ⟨caller, .releasing failed⟩ => some ⟨caller, .uncounted failed⟩
  | .free .worker, ⟨caller, .uncounted failed⟩ => some ⟨caller, .finished failed⟩
  | .answer, ⟨.waiting, .finished true⟩ => some ⟨.ended .failed, .finished true⟩
  | .answer, ⟨.waiting, .finished false⟩ => some ⟨.ended .returned, .finished false⟩
  | .timeOut, ⟨.waiting, worker⟩ => some ⟨.ended .timedOut, worker⟩
  | .cancel, ⟨.waiting, worker⟩ => some ⟨.ended .cancelled, worker⟩
  | _, _ => none

/-! ## The shared counters -/

/-- The counters that the calls share: `_slots`, `_occupied` and the metrics. -/
structure BoundaryCounters where
  slots : ℕ
  occupied : ℤ := 0
  rejections : ℕ := 0
  inflight : ℤ := 0
  databaseInflight : ℤ := 0

/-- Why a step is not taken: nothing is there to take it, or the semaphore is released too many times. -/
inductive BoundaryFault
  | notEnabled
  | overReleased

/-- The metrics of a worker that starts or ends. -/
def BoundaryCounters.addInflight (counters : BoundaryCounters) :
    BoundaryCounters :=
  { counters with
    inflight := counters.inflight + change
    databaseInflight :=
      if boundary.name = "database" then counters.databaseInflight + change else counters.databaseInflight }

/-- What a step of a call does to the counters. -/
def CallMove.effect : CallMove → BoundaryCounters → Except BoundaryFault BoundaryCounters
  | .count, counters => .ok { counters with occupied := counters.occupied + 1 }
  | .lower _, counters => .ok { counters with occupied := counters.occupied - 1 }
  | .free _, counters =>
    if boundary.capacity < counters.slots + 1 then .error .overReleased
    else .ok { counters with slots := counters.slots + 1 }
  | .start, counters => .ok (counters.addInflight boundary 1)
  | .finish _, counters => .ok (counters.addInflight boundary (-1))
  | _, counters => .ok counters

/-- The boundary at work: a call is known by its place. -/
structure BoundaryState where
  counters : BoundaryCounters
  calls : List Call := []

/-- `__init__`. -/
def Boundary.start : BoundaryState where
  counters := { slots := boundary.capacity }

/-- What happens at a boundary: a call of `run` begins, or a call takes a step. -/
inductive BoundaryEvent
  | submit
  | move (call : ℕ) (move : CallMove)

/-- The first line of `_acquire`. -/
def submit (state : BoundaryState) : BoundaryState :=
  if state.counters.slots = 0 then
    { counters := { state.counters with rejections := state.counters.rejections + 1 }
      calls := state.calls ++ [⟨.ended .saturated, .absent⟩] }
  else
    { counters := { state.counters with slots := state.counters.slots - 1 }
      calls := state.calls ++ [⟨.acquired, .absent⟩] }

/-- A step of a boundary. -/
def boundaryStep (state : BoundaryState) :
    BoundaryEvent → Except BoundaryFault BoundaryState
  | .submit => .ok (submit state)
  | .move place move =>
    match state.calls[place]?.bind move.next with
    | none => .error .notEnabled
    | some call => do
      let counters ← move.effect boundary state.counters
      return ⟨counters, state.calls.set place call⟩

/-- A run of a boundary from its start. -/
def boundaryRun (events : List BoundaryEvent) : Except BoundaryFault BoundaryState :=
  events.foldlM (boundaryStep boundary) boundary.start

/-- `status`. -/
def boundaryStatus (counters : BoundaryCounters) : ℕ × ℕ × ℤ × ℤ :=
  (boundary.workers, boundary.queueCapacity, counters.occupied,
    boundary.workers + boundary.queueCapacity - counters.occupied)

end TradingHarness
