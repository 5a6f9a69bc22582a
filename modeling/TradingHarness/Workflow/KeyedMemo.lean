import Mathlib.Algebra.Order.Ring.Rat
import Mathlib.Data.List.MinMax
import TradingHarness.Library.Dict

set_option autoImplicit false

/-! # The keyed memo

`AsyncKeyedMemo` (`async_keyed_memo.py`): callers of one key join the fetch that is in flight, and a result is
kept for a while. A call runs without interruption up to where it awaits its task, and again from there, so a
step is one of these parts, or a change of a task. -/

namespace TradingHarness

/-! ## The memo and its tasks -/

/-- What the constructor keeps of its arguments. -/
structure MemoSettings (ν : Type) where
  ttlSeconds : ℚ
  cacheable : ν → Bool
  maxEntries : ℕ
  ttlSeconds_nonneg : 0 ≤ ttlSeconds
  maxEntries_pos : 0 < maxEntries

/-- `__init__`. -/
def MemoSettings.ofArguments {ν : Type} (ttlSeconds : ℚ) (cacheable : ν → Bool) (maxEntries : ℤ) :
    MemoSettings ν where
  ttlSeconds := max 0 ttlSeconds
  cacheable := cacheable
  maxEntries := (max 1 maxEntries).toNat
  ttlSeconds_nonneg := le_max_left _ _
  maxEntries_pos := by omega

/-- A task runs, has raised, or has completed with a value at a time. -/
inductive TaskState (ν : Type)
  | running
  | failed
  | completed (value : ν) (time : ℚ)
  deriving DecidableEq

/-- A task that fetches a key. -/
structure MemoTask (κ ν : Type) where
  key : κ
  state : TaskState ν
  deriving DecidableEq

/-- A call waits for a task, or it has ended. -/
inductive CallState (ν : Type)
  | waiting (task : ℕ)
  | returned (value : ν)
  | raised (task : ℕ)
  | cancelled

structure MemoCall (κ ν : Type) where
  key : κ
  state : CallState ν

/-- The two tables of the memo, and the clock. Tasks and calls are kept in the order in which they were made,
    and known by their place. -/
structure MemoWorld (κ ν : Type) where
  cached : List (κ × (ℚ × ν)) := []
  inflight : List (κ × ℕ) := []
  tasks : List (MemoTask κ ν) := []
  calls : List (MemoCall κ ν) := []
  now : ℚ := 0

section Steps

variable {κ ν : Type} [DecidableEq κ] (settings : MemoSettings ν)

def MemoWorld.done (world : MemoWorld κ ν) (task : ℕ) : Bool :=
  match world.tasks[task]? with
  | some ⟨_, .running⟩ => false
  | _ => true

/-! ## A call up to its task -/

def createTask (key : κ) (world : MemoWorld κ ν) : MemoWorld κ ν :=
  { world with
    tasks := world.tasks ++ [⟨key, .running⟩]
    inflight := Dict.set world.inflight key world.tasks.length
    calls := world.calls ++ [⟨key, .waiting world.tasks.length⟩] }

/-- The call joins the task in flight, unless there is none or it is done. -/
def awaitTask (key : κ) (world : MemoWorld κ ν) : MemoWorld κ ν :=
  match world.inflight.lookup key with
  | some task =>
    if world.done task then createTask key world
    else { world with calls := world.calls ++ [⟨key, .waiting task⟩] }
  | none => createTask key world

/-- The value that a call returns at once. -/
def freshValue (key : κ) (world : MemoWorld κ ν) : Option ν :=
  match world.cached.lookup key with
  | some (stored, value) => if world.now - stored ≤ settings.ttlSeconds then some value else none
  | none => none

/-- `get` up to its `await`. -/
def startCall (key : κ) (world : MemoWorld κ ν) : MemoWorld κ ν :=
  match freshValue settings key world with
  | some value => { world with calls := world.calls ++ [⟨key, .returned value⟩] }
  | none => awaitTask key { world with cached := Dict.erase world.cached key }

/-! ## A call behind its task -/

/-- The entry of a task is removed. -/
def dropEntry (key : κ) (task : ℕ) (inflight : List (κ × ℕ)) : List (κ × ℕ) :=
  if inflight.lookup key = some task then Dict.erase inflight key else inflight

/-- The entry that was stored first is removed. -/
def popOldest (cached : List (κ × (ℚ × ν))) : List (κ × (ℚ × ν)) :=
  match cached.argmin (fun entry => entry.2.1) with
  | some entry => Dict.erase cached entry.1
  | none => cached

/-- `while len(self._cached) > self._max_entries`, with as many rounds as there are entries. -/
def popWhile (maxEntries : ℕ) : ℕ → List (κ × (ℚ × ν)) → List (κ × (ℚ × ν))
  | 0, cached => cached
  | rounds + 1, cached =>
    if maxEntries < cached.length then popWhile maxEntries rounds (popOldest cached) else cached

/-- The values once one is stored. -/
def storeValue (key : κ) (value : ν) (now : ℚ) (cached : List (κ × (ℚ × ν))) : List (κ × (ℚ × ν)) :=
  if settings.cacheable value then
    let cached := Dict.set cached key (now, value)
    popWhile settings.maxEntries cached.length cached
  else cached

/-- `get` behind its `await`, once its task is done. -/
def resumeCall (call : ℕ) (world : MemoWorld κ ν) : MemoWorld κ ν :=
  match world.calls[call]? with
  | some ⟨key, .waiting task⟩ =>
    match world.tasks[task]? with
    | some ⟨_, .completed value _⟩ =>
      { world with
        inflight := dropEntry key task world.inflight
        cached := storeValue settings key value world.now world.cached
        calls := world.calls.set call ⟨key, .returned value⟩ }
    | some ⟨_, .failed⟩ =>
      { world with
        inflight := dropEntry key task world.inflight
        calls := world.calls.set call ⟨key, .raised task⟩ }
    | _ => world
  | _ => world

/-- The cancellation of a caller reaches its `await`. The task is shielded and goes on. -/
def cancelCall (call : ℕ) (world : MemoWorld κ ν) : MemoWorld κ ν :=
  match world.calls[call]? with
  | some ⟨key, .waiting task⟩ =>
    { world with
      inflight := dropEntry key task world.inflight
      calls := world.calls.set call ⟨key, .cancelled⟩ }
  | _ => world

/-! ## Runs -/

/-- A task that runs ends. -/
def endTask (task : ℕ) (state : TaskState ν) (world : MemoWorld κ ν) : MemoWorld κ ν :=
  match world.tasks[task]? with
  | some ⟨key, .running⟩ => { world with tasks := world.tasks.set task ⟨key, state⟩ }
  | _ => world

inductive MemoOp (κ ν : Type)
  | tick (time : ℚ)
  | call (key : κ)
  | complete (task : ℕ) (value : ν)
  | fail (task : ℕ)
  | resume (call : ℕ)
  | cancel (call : ℕ)
  | clear

def memoStep (op : MemoOp κ ν) (world : MemoWorld κ ν) : MemoWorld κ ν :=
  match op with
  | .tick time => { world with now := max world.now time }
  | .call key => startCall settings key world
  | .complete task value => endTask task (.completed value world.now) world
  | .fail task => endTask task .failed world
  | .resume call => resumeCall settings call world
  | .cancel call => cancelCall call world
  | .clear => { world with cached := [] }

/-- A new memo behind steps in any order. -/
def memoAfter (ops : List (MemoOp κ ν)) : MemoWorld κ ν :=
  ops.foldl (fun world op => memoStep settings op world) {}

theorem memoAfter_concat (ops : List (MemoOp κ ν)) (op : MemoOp κ ν) :
    memoAfter settings (ops ++ [op]) = memoStep settings op (memoAfter settings ops) := by
  unfold memoAfter
  rw [List.foldl_append, List.foldl_cons, List.foldl_nil]

end Steps

end TradingHarness
