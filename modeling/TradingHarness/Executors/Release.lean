import TradingHarness.Executors.Boundary
import Mathlib.Tactic.Push

set_option autoImplicit false

/-! # Slots of a boundary

In every run the counters of a boundary follow its calls: a slot is held from the first line of `_acquire` to the
last line of `_release`, which the worker runs once for each call it was given, whatever becomes of the caller. -/

namespace TradingHarness

/-! ## What a call holds -/

/-- The caller is between `_acquire` and the end of its own `_release`. -/
def CallerAt.holdsSlot : CallerAt → Bool
  | .acquired | .submitting | .releasing | .uncounted => true
  | _ => false

/-- The call is with the worker from its submission to the end of `_release`. -/
def WorkerAt.holdsSlot : WorkerAt → Bool
  | .queued | .running | .releasing _ | .uncounted _ => true
  | _ => false

/-- The call was given to the pool. -/
def CallerAt.handedOver : CallerAt → Bool
  | .waiting | .ended .returned | .ended .failed | .ended .timedOut | .ended .cancelled => true
  | _ => false

/-- The caller is counted, and is about to submit or to give its slot back. -/
def CallerAt.passing : CallerAt → Bool
  | .submitting | .releasing => true
  | _ => false

/-- The caller has given its slot back. -/
def CallerAt.released : CallerAt → Bool
  | .ended .refused => true
  | _ => false

/-- The action has not ended. -/
def WorkerAt.unfinished : WorkerAt → Bool
  | .queued | .running => true
  | _ => false

/-- The worker is about to give the slot back. -/
def WorkerAt.passing : WorkerAt → Bool
  | .releasing _ => true
  | _ => false

/-- The worker has given the slot back. -/
def WorkerAt.released : WorkerAt → Bool
  | .finished _ => true
  | _ => false

def WorkerAt.isRunning : WorkerAt → Bool
  | .running => true
  | _ => false

def WorkerAt.isAbsent : WorkerAt → Bool
  | .absent => true
  | _ => false

variable (call : Call)

/-- A worker has a call exactly when the caller has handed it over. -/
def Call.WellFormed : Prop := call.caller.handedOver = !call.worker.isAbsent

/-- A slot is taken for the call. -/
def Call.holdsSlot : Bool := call.caller.holdsSlot || call.worker.holdsSlot

/-- The call was accepted, and its action has not ended. -/
def Call.unfinished : Bool := call.worker.unfinished

/-- The call is counted, before its submission, after one that was refused, or after the end of its action. -/
def Call.passing : Bool := call.caller.passing || call.worker.passing

/-- The call is counted in `_occupied`. -/
def Call.counted : Bool := call.unfinished || call.passing

def Call.running : Bool := call.worker.isRunning

/-- `_release` has ended for the call. -/
def Call.released : Bool := call.caller.released || call.worker.released

/-- What a step adds to the slots that are held. -/
def CallMove.slotChange : CallMove → ℤ
  | .free _ => -1
  | _ => 0

/-- What a step adds to the calls that are counted. -/
def CallMove.countChange : CallMove → ℤ
  | .count => 1
  | .lower _ => -1
  | _ => 0

/-- What a step adds to the actions that run. -/
def CallMove.runChange : CallMove → ℤ
  | .start => 1
  | .finish _ => -1
  | _ => 0

/-- What a step of one call changes, in a call that is handed over at most once. -/
structure Changes (move : CallMove) (before after : Call) : Prop where
  wellFormed : after.WellFormed
  slots : after.holdsSlot.toInt - before.holdsSlot.toInt = move.slotChange
  counted : after.counted.toInt - before.counted.toInt = move.countChange
  running : after.running.toInt - before.running.toInt = move.runChange
  released : before.released.toInt - after.released.toInt = move.slotChange

theorem Call.WellFormed.absent {caller : CallerAt} {worker : WorkerAt} (h : Call.WellFormed ⟨caller, worker⟩)
    (hcaller : caller.handedOver = false) : worker = .absent := by
  have habsent : (!worker.isAbsent) = false := Eq.trans h.symm hcaller
  cases worker <;> first | rfl | cases habsent

/-- A caller that has handed its call over holds nothing of its own. -/
structure AwayFrom (caller : CallerAt) : Prop where
  handedOver : caller.handedOver = true
  holdsSlot : caller.holdsSlot = false
  passing : caller.passing = false
  released : caller.released = false

theorem Call.WellFormed.away {caller : CallerAt} {worker : WorkerAt} (h : Call.WellFormed ⟨caller, worker⟩)
    (hworker : worker.isAbsent = false) : AwayFrom caller := by
  have hover : caller.handedOver = true := h.trans (congrArg not hworker)
  rcases caller with _ | _ | _ | _ | _ | callExit
  case ended => rcases callExit <;> first | exact ⟨rfl, rfl, rfl, rfl⟩ | cases hover
  all_goals first | exact ⟨rfl, rfl, rfl, rfl⟩ | cases hover

variable {move : CallMove}

/-- **One step of a call, one case for each step: only `_release` gives a slot back, and only a caller that was
    refused or the worker of the call runs it.** -/
theorem CallMove.next_changes {before after : Call} (hwell : before.WellFormed)
    (h : move.next before = some after) : Changes move before after := by
  unfold CallMove.next at h
  split at h <;> cases h
  -- steps of a caller that has not handed its call over
  case h_1 | h_2 | h_3 | h_4 | h_5 =>
    obtain rfl := hwell.absent rfl
    constructor <;> rfl
  -- steps of the worker, whatever the caller does
  case h_6 | h_7 | h_8 | h_9 =>
    have haway := hwell.away rfl
    constructor <;> simp only [Call.WellFormed, Call.holdsSlot, Call.counted, Call.unfinished, Call.passing,
      Call.running, Call.released, haway.handedOver, haway.holdsSlot, haway.passing, haway.released] <;> rfl
  -- the caller is answered
  case h_10 | h_11 => constructor <;> rfl
  -- the caller leaves the worker alone
  case h_12 | h_13 => exact ⟨hwell, Int.sub_self _, Int.sub_self _, Int.sub_self _, Int.sub_self _⟩

/-! ## The invariant -/

/-- The event gives back the slot of the call at the place. -/
def givesBack (place : ℕ) : BoundaryEvent → Bool
  | .move call (.free _) => call == place
  | _ => false

/-- The counters of a state follow its calls, and the events so far gave back a slot for each call that has
    released. -/
structure Follow (boundary : Boundary) (seen : List BoundaryEvent) (state : BoundaryState) : Prop where
  wellFormed : ∀ call ∈ state.calls, call.WellFormed
  slots : Tracked.Tracks (boundary.capacity - state.counters.slots) Call.holdsSlot state.calls
  occupied : Tracked.Tracks state.counters.occupied Call.counted state.calls
  inflight : Tracked.Tracks state.counters.inflight Call.running state.calls
  databaseInflight : boundary.name = "database" →
    Tracked.Tracks state.counters.databaseInflight Call.running state.calls
  gaveBack : ∀ place, (seen.countP (givesBack place) : ℤ) = (state.calls[place]?.any Call.released).toInt

theorem follow_start (boundary : Boundary) : Follow boundary [] boundary.start := by
  refine ⟨?_, ?_, rfl, rfl, fun _ => rfl, fun _ => rfl⟩
  · intro call hcall
    exact absurd hcall List.not_mem_nil
  · exact Int.sub_self _

variable {boundary : Boundary} {seen : List BoundaryEvent} {counters : BoundaryCounters}

/-- A new call that holds nothing of the pool is followed. -/
theorem Follow.submitted {counters' : BoundaryCounters}
    {calls : List Call} (h : Follow boundary seen ⟨counters, calls⟩) (call : Call) (hwell : call.WellFormed)
    (hslots : (boundary.capacity - counters'.slots : ℤ) = boundary.capacity - counters.slots + call.holdsSlot.toInt)
    (hsame : counters'.occupied = counters.occupied ∧ counters'.inflight = counters.inflight
      ∧ counters'.databaseInflight = counters.databaseInflight)
    (hnone : call.counted = false ∧ call.running = false ∧ call.released = false) :
    Follow boundary (seen ++ [.submit]) ⟨counters', calls ++ [call]⟩ := by
  obtain ⟨hcounted, hrunning, hreleased⟩ := hnone
  obtain ⟨hoccupied, hinflight, hdatabase⟩ := hsame
  constructor
  · intro other hother
    rcases List.mem_append.mp hother with hother | hother
    · exact h.wellFormed other hother
    · rw [List.mem_singleton.mp hother]
      exact hwell
  · exact hslots ▸ h.slots.concat call
  · have hnew := h.occupied.concat call
    rw [hcounted] at hnew
    simpa [hoccupied] using hnew
  · have hnew := h.inflight.concat call
    rw [hrunning] at hnew
    simpa [hinflight] using hnew
  · intro hname
    have hnew := (h.databaseInflight hname).concat call
    rw [hrunning] at hnew
    simpa [hdatabase] using hnew
  · intro place
    have hold := h.gaveBack place
    rw [List.countP_append, List.getElem?_append]
    split
    · simpa [givesBack] using hold
    next hplace =>
      rw [List.getElem?_eq_none (Nat.le_of_not_lt hplace)] at hold
      rcases hnew : place - calls.length with _ | beyond
      · simpa [givesBack, hreleased] using hold
      · simpa [givesBack] using hold

variable {state : BoundaryState}

theorem follow_submit (h : Follow boundary seen state) : Follow boundary (seen ++ [.submit]) (submit state) := by
  unfold submit
  split
  · refine h.submitted ⟨.ended .saturated, .absent⟩ rfl ?_ ⟨rfl, rfl, rfl⟩ ⟨rfl, rfl, rfl⟩
    exact (Int.add_zero _).symm
  next hfree =>
    refine h.submitted ⟨.acquired, .absent⟩ rfl ?_ ⟨rfl, rfl, rfl⟩ ⟨rfl, rfl, rfl⟩
    have hone : Call.holdsSlot ⟨.acquired, .absent⟩ = true := rfl
    rw [hone, Bool.toInt_true]
    dsimp only
    omega

/-- What a step of a call does to the counters, in terms of what it changes in the call. -/
theorem CallMove.effect_ok {counters' : BoundaryCounters}
    (h : move.effect boundary counters = .ok counters') :
    (boundary.capacity - counters'.slots : ℤ) = boundary.capacity - counters.slots + move.slotChange
      ∧ counters'.occupied = counters.occupied + move.countChange
      ∧ counters'.inflight = counters.inflight + move.runChange
      ∧ (boundary.name = "database" →
        counters'.databaseInflight = counters.databaseInflight + move.runChange) := by
  cases move
  case free thread =>
    simp only [CallMove.effect] at h
    split at h
    · cases h
    · cases h
      refine ⟨?_, (Int.add_zero _).symm, (Int.add_zero _).symm, fun _ => (Int.add_zero _).symm⟩
      simp only [CallMove.slotChange]
      push_cast
      omega
  case start | finish =>
    cases h
    refine ⟨(Int.add_zero _).symm, (Int.add_zero _).symm, rfl, fun hname => ?_⟩
    simp [BoundaryCounters.addInflight, hname, CallMove.runChange]
  case count | lower =>
    cases h
    exact ⟨(Int.add_zero _).symm, rfl, (Int.add_zero _).symm, fun _ => (Int.add_zero _).symm⟩
  -- the other steps leave the counters
  all_goals
    cases h
    exact ⟨(Int.add_zero _).symm, (Int.add_zero _).symm, (Int.add_zero _).symm, fun _ => (Int.add_zero _).symm⟩

section

variable (h : Follow boundary seen state)

include h

theorem CallMove.effect_of_follow {place : ℕ} {before after : Call}
    (hbefore : state.calls[place]? = some before) (hnext : move.next before = some after) :
    ∃ counters, move.effect boundary state.counters = .ok counters := by
  have hmem := List.mem_of_getElem? hbefore
  cases move
  case free thread =>
    have hchange := (CallMove.next_changes (h.wellFormed before hmem) hnext).slots
    have hholds : before.holdsSlot = true := by
      rcases hbeforeSlot : before.holdsSlot with _ | _
      · rw [hbeforeSlot] at hchange
        rcases hafterSlot : after.holdsSlot with _ | _ <;> rw [hafterSlot] at hchange <;> cases hchange
      · rfl
    have hheld := h.slots.pos_of_mem hmem hholds
    refine ⟨{ state.counters with slots := state.counters.slots + 1 }, if_neg ?_⟩
    omega
  all_goals exact ⟨_, rfl⟩

theorem follow_move {place : ℕ} {before after : Call}
    (hbefore : state.calls[place]? = some before) (hnext : move.next before = some after)
    (heffect : move.effect boundary state.counters = .ok counters) :
    Follow boundary (seen ++ [.move place move]) ⟨counters, state.calls.set place after⟩ := by
  have hchanges := CallMove.next_changes (h.wellFormed before (List.mem_of_getElem? hbefore)) hnext
  obtain ⟨hslots, hoccupied, hinflight, hdatabase⟩ := CallMove.effect_ok heffect
  constructor
  · intro call hcall
    rcases List.mem_or_eq_of_mem_set hcall with hcall | rfl
    · exact h.wellFormed call hcall
    · exact hchanges.wellFormed
  · rw [hslots]
    exact h.slots.set hbefore hchanges.slots
  · rw [hoccupied]
    exact h.occupied.set hbefore hchanges.counted
  · rw [hinflight]
    exact h.inflight.set hbefore hchanges.running
  · intro hname
    rw [hdatabase hname]
    exact (h.databaseInflight hname).set hbefore hchanges.running
  · intro other
    have hold := h.gaveBack other
    have hinside : place < state.calls.length := (List.getElem?_eq_some_iff.mp hbefore).1
    rw [List.countP_append, List.countP_singleton]
    by_cases hother : place = other
    · subst hother
      rw [hbefore, Option.any_some] at hold
      rw [List.getElem?_set_self hinside, Option.any_some]
      have hreleased := hchanges.released
      have hone : ((if givesBack place (.move place move) = true then 1 else 0 : ℕ) : ℤ) = -move.slotChange := by
        cases move <;> simp [givesBack, CallMove.slotChange]
      rw [Int.natCast_add, hone, hold]
      omega
    · rw [List.getElem?_set_ne hother]
      have hnone : givesBack other (.move place move) = false := by
        cases move <;> simp [givesBack, hother]
      simpa [hnone] using hold

/-! ## Runs -/

/-- **One step keeps the invariant, and never gives back a slot that is not held.** -/
theorem follow_step (event : BoundaryEvent) :
    Runs.Ends (Follow boundary (seen ++ [event])) (· = .notEnabled) (boundaryStep boundary state event) := by
  cases event with
  | submit => exact follow_submit h
  | move place move =>
    rw [boundaryStep]
    split
    · rfl
    next after hafter =>
      obtain ⟨before, hbefore, hnext⟩ := Option.bind_eq_some_iff.mp hafter
      obtain ⟨counters, heffect⟩ := CallMove.effect_of_follow h hbefore hnext
      rw [heffect]
      exact follow_move h hbefore hnext heffect

end

/-- **Every run keeps the invariant.** -/
theorem follow_run (boundary : Boundary) (events : List BoundaryEvent) :
    Runs.Ends (Follow boundary events) (· = .notEnabled) (boundaryRun boundary events) :=
  Runs.ends_foldlM (boundaryStep boundary) _ (Follow boundary) events boundary.start (follow_start boundary)
    (fun _ event _ _ _ h => follow_step h event)

variable {events : List BoundaryEvent}

theorem follow_of_run (h : boundaryRun boundary events = .ok state) : Follow boundary events state := by
  have hfollow := follow_run boundary events
  rw [h] at hfollow
  exact hfollow

theorem Call.holdsSlot_of_counted {call : Call} (h : call.counted = true) : call.holdsSlot = true := by
  obtain ⟨caller, worker⟩ := call
  cases caller <;> cases worker <;> first | rfl | cases h

theorem occupied_le_capacity (h : Follow boundary events state) : state.counters.occupied ≤ boundary.workers + boundary.queueCapacity := by
  have hheld := h.occupied.le_of_imp h.slots (fun call _ => Call.holdsSlot_of_counted)
  have hcapacity : (boundary.capacity : ℤ) = boundary.workers + boundary.queueCapacity := Int.natCast_add _ _
  omega

theorem gaveBack_of_accepted (h : Follow boundary events state) {place : ℕ} {call : Call} (hcall : state.calls[place]? = some call)
    (haccepted : call.worker.isAbsent = false) :
    events.countP (givesBack place) = if call.worker.released then 1 else 0 := by
  have hgave := h.gaveBack place
  have haway := (h.wellFormed call (List.mem_of_getElem? hcall)).away haccepted
  rw [hcall, Option.any_some, Call.released, haway.released, Bool.false_or] at hgave
  rcases hreleased : call.worker.released with _ | _
  · rw [hreleased] at hgave
    exact Int.ofNat_eq_zero.mp hgave
  · rw [hreleased] at hgave
    exact Int.ofNat_inj.mp hgave

theorem boundaryStep_move {place : ℕ} {before after : Call}
    (hbefore : state.calls[place]? = some before)
    (hnext : move.next before = some after) (heffect : move.effect boundary state.counters = .ok counters) :
    boundaryStep boundary state (.move place move) = .ok ⟨counters, state.calls.set place after⟩ := by
  have hafter : state.calls[place]?.bind move.next = some after := by
    rw [hbefore]
    exact hnext
  simp only [boundaryStep, hafter, heffect]
  rfl

theorem accepted_of_idle (h : Follow boundary events state) (hidle : ∀ call ∈ state.calls, call.holdsSlot = false) :
    state.counters.occupied = 0 ∧
      ∃ accepted, [.submit, .move state.calls.length .count, .move state.calls.length .accept].foldlM
          (boundaryStep boundary) state = .ok accepted
        ∧ accepted.calls = state.calls ++ [⟨.waiting, .queued⟩] ∧ accepted.counters.occupied = 1 := by
  obtain ⟨counters, calls⟩ := state
  have hslots := h.slots.eq_zero_iff.mpr hidle
  have hcapacity : 0 < boundary.capacity := Nat.add_pos_left boundary.hasWorker _
  have hfree : counters.slots ≠ 0 := by
    dsimp only at hslots
    omega
  have hzero : counters.occupied = 0 := by
    refine h.occupied.eq_zero_iff.mpr (fun call hcall => ?_)
    rcases hcounted : call.counted with _ | _
    · rfl
    · rw [← hidle call hcall, Call.holdsSlot_of_counted hcounted]
  have hcount : boundaryStep boundary
      ⟨{ counters with slots := counters.slots - 1 }, calls ++ [⟨.acquired, .absent⟩]⟩ (.move calls.length .count)
      = .ok ⟨{ counters with slots := counters.slots - 1, occupied := counters.occupied + 1 },
          calls ++ [⟨.submitting, .absent⟩]⟩ := by
    rw [boundaryStep_move List.getElem?_concat_length rfl rfl, List.set_append_right _ _ (Nat.le_refl _),
      Nat.sub_self, List.set_cons_zero]
  have haccept : boundaryStep boundary
      ⟨{ counters with slots := counters.slots - 1, occupied := counters.occupied + 1 },
        calls ++ [⟨.submitting, .absent⟩]⟩ (.move calls.length .accept)
      = .ok ⟨{ counters with slots := counters.slots - 1, occupied := counters.occupied + 1 },
          calls ++ [⟨.waiting, .queued⟩]⟩ := by
    rw [boundaryStep_move List.getElem?_concat_length rfl rfl, List.set_append_right _ _ (Nat.le_refl _),
      Nat.sub_self, List.set_cons_zero]
  refine ⟨hzero, ⟨{ counters with slots := counters.slots - 1, occupied := counters.occupied + 1 },
    calls ++ [⟨.waiting, .queued⟩]⟩, ?_, rfl, by simp only [hzero]; rfl⟩
  rw [List.foldlM_cons, boundaryStep, submit, if_neg hfree]
  calc [.move calls.length .count, .move calls.length .accept].foldlM (boundaryStep boundary)
        ⟨{ counters with slots := counters.slots - 1 }, calls ++ [⟨.acquired, .absent⟩]⟩
      = [.move calls.length .accept].foldlM (boundaryStep boundary) _ := by
        rw [List.foldlM_cons, hcount]
        rfl
    _ = _ := by
        rw [List.foldlM_cons, haccept]
        rfl

/-- A worker whose action has ended can go on to the end of `_release`, whatever the caller and the other calls
    do. -/
theorem release_enabled (h : Follow boundary events state) {place : ℕ} {call : Call} (hcall : state.calls[place]? = some call)
    {after : Call} (hnext : move.next call = some after) :
    ∃ counters, boundaryStep boundary state (.move place move) = .ok ⟨counters, state.calls.set place after⟩ := by
  obtain ⟨counters, heffect⟩ := CallMove.effect_of_follow h hcall hnext
  exact ⟨counters, boundaryStep_move hcall hnext heffect⟩

/-- **In every run of a boundary no slot is given back too often; the count is the number of calls that are counted,
    which are those with an action that has not ended where no call is passing; it never exceeds the workers and the
    queue; each accepted call has given its slot back once when its worker is finished, and not before, and nothing
    keeps a worker from it; and where no call holds a slot a new call is accepted.** -/
theorem boundary_run_slots (boundary : Boundary) (events : List BoundaryEvent) :
    boundaryRun boundary events ≠ .error .overReleased
      ∧ ∀ state, boundaryRun boundary events = .ok state →
        state.counters.occupied = state.calls.countP Call.counted
        ∧ ((∀ call ∈ state.calls, call.passing = false) →
          state.counters.occupied = state.calls.countP Call.unfinished)
        ∧ state.counters.occupied ≤ boundary.workers + boundary.queueCapacity
        ∧ (∀ (place : ℕ) (call : Call), state.calls[place]? = some call →
          (call.worker.isAbsent = false →
            events.countP (givesBack place) = if call.worker.released then 1 else 0)
          ∧ ∀ (move : CallMove) (after : Call), move.next call = some after →
            ∃ counters, boundaryStep boundary state (.move place move)
              = .ok ⟨counters, state.calls.set place after⟩)
        ∧ ((∀ call ∈ state.calls, call.holdsSlot = false) →
          ∃ accepted, [.submit, .move state.calls.length .count, .move state.calls.length .accept].foldlM
              (boundaryStep boundary) state = .ok accepted
            ∧ accepted.calls = state.calls ++ [⟨.waiting, .queued⟩] ∧ accepted.counters.occupied = 1) := by
  constructor
  · intro hfault
    have hfollow := follow_run boundary events
    rw [hfault] at hfollow
    cases hfollow
  · intro state hstate
    have h := follow_of_run hstate
    refine ⟨h.occupied, fun hpassing => ?_, occupied_le_capacity h, fun place call hcall =>
      ⟨gaveBack_of_accepted h hcall, fun move after hnext => release_enabled h hcall hnext⟩,
      fun hidle => (accepted_of_idle h hidle).2⟩
    rw [h.occupied]
    congr 1
    refine List.countP_congr (fun call hcall => ?_)
    rw [Call.counted, hpassing call hcall, Bool.or_false]

/-- A caller that times out while its action runs, another call that is turned away, and the end of the action. -/
def timedOutRun : List BoundaryEvent :=
  [.submit, .move 0 .count, .move 0 .accept, .move 0 .start, .move 0 .timeOut, .submit, .move 0 (.finish false),
    .move 0 (.lower .worker), .move 0 (.free .worker)]

theorem boundary_run_slots_timedOut : ∃ state, boundaryRun tdxShadowBoundary timedOutRun = .ok state
    ∧ state.counters.rejections = 1 ∧ state.counters.occupied = (0 : ℕ)
    ∧ timedOutRun.countP (givesBack 0) = 1 := by
  have hrun : boundaryRun tdxShadowBoundary timedOutRun = .ok
      ⟨{ slots := 1, rejections := 1 }, [⟨.ended .timedOut, .finished false⟩, ⟨.ended .saturated, .absent⟩]⟩ := rfl
  obtain ⟨hoccupied, _, _, hcalls, _⟩ := (boundary_run_slots tdxShadowBoundary timedOutRun).2 _ hrun
  exact ⟨_, hrun, rfl, hoccupied, (hcalls 0 _ rfl).1 rfl⟩

end TradingHarness
