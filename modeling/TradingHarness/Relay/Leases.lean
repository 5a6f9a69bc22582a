import Mathlib.Logic.Relation
import TradingHarness.Relay.EventSpool

set_option autoImplicit false

/-! # Leases and late outcomes

Workers claim events, and report an outcome in time or late. A late failure is written over whatever the event
has become: with none of these, one worker at a time has an event and a delivered one stays delivered. -/

namespace TradingHarness

variable (settings : SpoolSettings)

/-! ## Workers -/

/-- What a worker has from a claim, until it reports. -/
structure Lease where
  worker : ℕ
  eventId : List Char
  leaseUntil : ℤ

/-- The spool, the clock, and what the workers have claimed. -/
structure SpoolWorld where
  spool : EventSpool := {}
  now : ℤ := 0
  leases : List Lease := []

inductive WorkerOp
  | wait (duration : ℕ)
  | enqueue (eventId : List Char) (payload : SpoolPayload) (refresh reopen : Bool)
  | claim (worker : ℕ) (eventId : List Char) (leaseSeconds : ℤ)
  | markDelivered (worker : ℕ) (eventId : List Char)
  | markFailed (worker : ℕ) (eventId error : List Char) (retryAfter : ℤ)
  | markIgnored (eventId reason : List Char)

variable (world : SpoolWorld) (worker : ℕ) (eventId : List Char)

/-- The leases of the others. -/
def withoutLease (leases : List Lease) : List Lease :=
  leases.filter (fun lease => !(lease.worker == worker && lease.eventId == eventId))

def workerStep (op : WorkerOp) (world : SpoolWorld) : SpoolWorld :=
  match op with
  | .wait duration => { world with now := world.now + duration }
  | .enqueue eventId payload refresh reopen =>
    { world with
      spool := kept world.spool (enqueue settings world.now eventId payload refresh reopen world.spool) }
  | .claim worker eventId leaseSeconds =>
    match claim world.now eventId leaseSeconds world.spool with
    | .ok (.claimed, spool) =>
      { world with
        spool := spool
        leases := ⟨worker, eventId, leaseEnd world.now leaseSeconds⟩ :: world.leases }
    | _ => world
  | .markDelivered worker eventId =>
    { world with
      spool := markDelivered world.now eventId world.spool
      leases := withoutLease worker eventId world.leases }
  | .markFailed worker eventId error retryAfter =>
    { world with
      spool := markFailed world.now eventId error retryAfter world.spool
      leases := withoutLease worker eventId world.leases }
  | .markIgnored eventId reason =>
    { world with spool := (markIgnored settings world.now eventId reason world.spool).2 }

/-- The worker has claimed the event, has not reported, and its lease has not expired. -/
def HoldsLease : Prop :=
  ∃ lease ∈ world.leases, lease.worker = worker ∧ lease.eventId = eventId ∧ world.now < lease.leaseUntil

/-- The operation reopens the event if it is delivered. -/
def Reopens : WorkerOp → Prop
  | .enqueue other _ refresh reopen => settings.strip other = eventId ∧ refresh = true ∧ reopen = true
  | _ => False

/-- No failure is reported for an event that is delivered or that another worker has, and no delivered event is
    reopened that a worker has. -/
def InTime : WorkerOp → Prop
  | .markFailed worker eventId _ _ =>
    ¬ IsDelivered world.spool eventId ∧ ∀ other, HoldsLease world other eventId → other = worker
  | .enqueue eventId _ true true =>
    IsDelivered world.spool (settings.strip eventId) →
      ∀ worker, ¬ HoldsLease world worker (settings.strip eventId)
  | _ => True

def WorkerRun (allowed : SpoolWorld → WorkerOp → Prop) : SpoolWorld → SpoolWorld → Prop :=
  Relation.ReflTransGen (fun before after => ∃ op, allowed before op ∧ after = workerStep settings op before)

/-! ## The invariant -/

/-- An unexpired lease is the one that stands with its event, unless the event is delivered, and no other worker
    has one. -/
structure LeasesSound (world : SpoolWorld) : Prop where
  nodup : (world.spool.events.map SpoolEvent.eventId).Nodup
  current : ∀ lease ∈ world.leases, world.now < lease.leaseUntil →
    ∃ event, findEvent lease.eventId world.spool.events = some event ∧
      (event.status = .delivered ∨
        (event.status = .processing ∧ event.leaseUntil = some lease.leaseUntil))
  unique : ∀ first ∈ world.leases, ∀ second ∈ world.leases, world.now < first.leaseUntil →
    world.now < second.leaseUntil → first.eventId = second.eventId → first.worker = second.worker

variable {settings} {world : SpoolWorld}

theorem leasesSound_empty (now : ℤ) : LeasesSound { now := now } := by
  refine ⟨List.nodup_nil, ?_, ?_⟩
  · exact fun lease hlease => absurd hlease List.not_mem_nil
  · exact fun first hfirst => absurd hfirst List.not_mem_nil

/-- A step that keeps the clock, drops leases and leaves the event of each unexpired one as it was, or
    delivered. -/
theorem LeasesSound.keep (h : LeasesSound world) {spool : EventSpool} {leases : List Lease}
    (hnodup : (spool.events.map SpoolEvent.eventId).Nodup) (hleases : ∀ lease ∈ leases, lease ∈ world.leases)
    (hevents : ∀ lease ∈ leases, world.now < lease.leaseUntil → ∀ event,
      findEvent lease.eventId world.spool.events = some event →
      event.status = .delivered ∨ event.status = .processing →
      ∃ after, findEvent lease.eventId spool.events = some after ∧
        (after.status = .delivered ∨
          (after.status = event.status ∧ after.leaseUntil = event.leaseUntil))) :
    LeasesSound { world with spool := spool, leases := leases } := by
  refine ⟨hnodup, ?_, ?_⟩
  · intro lease hlease hlive
    obtain ⟨event, hfind, hcurrent⟩ := h.current lease (hleases lease hlease) hlive
    obtain ⟨after, hafter, hdelivered | ⟨hstatus, hlease⟩⟩ :=
      hevents lease hlease hlive event hfind (hcurrent.imp_right And.left)
    · exact ⟨after, hafter, Or.inl hdelivered⟩
    · refine ⟨after, hafter, ?_⟩
      rw [hstatus, hlease]
      exact hcurrent
  · exact fun first hfirst second hsecond => h.unique first (hleases first hfirst) second (hleases second hsecond)

theorem mem_withoutLease {worker : ℕ} {eventId : List Char} {leases : List Lease} {lease : Lease} :
    lease ∈ withoutLease worker eventId leases ↔
      lease ∈ leases ∧ ¬ (lease.worker = worker ∧ lease.eventId = eventId) := by
  unfold withoutLease
  rw [List.mem_filter, Bool.not_eq_true', ← Bool.not_eq_true, Bool.and_eq_true, beq_iff_eq, beq_iff_eq]

section

variable (h : LeasesSound world)

include h

/-- An event that is delivered behind the step serves every lease. -/
theorem LeasesSound.deliver {spool : EventSpool} {leases : List Lease}
    {eventId : List Char} (change : SpoolEvent → SpoolEvent)
    (hid : ∀ event, (change event).eventId = event.eventId)
    (hchange : ∀ event, (change event).status = .delivered)
    (hevents : spool.events = updateEvent eventId change world.spool.events)
    (hleases : ∀ lease ∈ leases, lease ∈ world.leases) :
    LeasesSound { world with spool := spool, leases := leases } := by
  refine h.keep (by rw [hevents, ids_update change hid]; exact h.nodup) hleases ?_
  intro lease _ _ event hfind _
  rw [hevents, findEvent_update change hid]
  by_cases hsame : lease.eventId = eventId
  · rw [if_pos hsame, hfind]
    exact ⟨change event, rfl, Or.inl (hchange event)⟩
  · rw [if_neg hsame]
    exact ⟨event, hfind, Or.inr ⟨rfl, rfl⟩⟩

theorem leasesSound_wait (duration : ℕ) :
    LeasesSound { world with now := world.now + duration } := by
  refine ⟨h.nodup, ?_, ?_⟩
  · intro lease hlease hlive
    exact h.current lease hlease (by dsimp only at hlive; omega)
  · intro first hfirst second hsecond hfirstLive hsecondLive
    exact h.unique first hfirst second hsecond (by dsimp only at hfirstLive; omega)
      (by dsimp only at hsecondLive; omega)

theorem leasesSound_enqueue (eventId : List Char) (payload : SpoolPayload)
    (refresh reopen : Bool) (hallowed : InTime settings world (.enqueue eventId payload refresh reopen)) :
    LeasesSound (workerStep settings (.enqueue eventId payload refresh reopen) world) := by
  have hrefresh : ∀ event : SpoolEvent, event.status = .delivered ∨ event.status = .processing →
      refreshEvent world.now payload event = event := by
    intro event hstatus
    refine if_neg ?_
    rcases hstatus with hstatus | hstatus <;> rw [hstatus] <;> decide
  obtain ⟨-, hevents | ⟨hfresh, hevents⟩ | ⟨-, -, hevents⟩ | ⟨rfl, rfl, hevents⟩⟩ :=
    enqueue_cases settings world.now eventId payload refresh reopen world.spool
  · refine h.keep (by rw [hevents]; exact h.nodup) (fun _ hlease => hlease) ?_
    intro lease _ _ event hfind _
    rw [hevents]
    exact ⟨event, hfind, Or.inr ⟨rfl, rfl⟩⟩
  · refine h.keep (by rw [hevents]; exact nodup_ids_concat h.nodup hfresh) (fun _ hlease => hlease) ?_
    intro lease _ _ event hfind _
    rw [hevents]
    exact ⟨event, findEvent_concat _ hfind, Or.inr ⟨rfl, rfl⟩⟩
  · refine h.keep (by rw [hevents, ids_update _ (refreshEvent_eventId payload)]; exact h.nodup)
      (fun _ hlease => hlease) ?_
    intro lease _ _ event hfind hstatus
    rw [hevents, findEvent_update _ (refreshEvent_eventId payload), hfind, Option.map_some,
      hrefresh event hstatus]
    exact ⟨event, by split <;> rfl, Or.inr ⟨rfl, rfl⟩⟩
  · refine h.keep ?_ (fun _ hlease => hlease) ?_
    · rw [hevents, ids_update _ (reopenEvent_eventId payload), ids_update _ (refreshEvent_eventId payload)]
      exact h.nodup
    · intro lease hlease hlive event hfind hstatus
      rw [hevents, findEvent_update _ (reopenEvent_eventId payload),
        findEvent_update _ (refreshEvent_eventId payload), hfind, Option.map_some, hrefresh event hstatus]
      by_cases hsame : lease.eventId = settings.strip eventId
      · rw [if_pos hsame, if_pos hsame]
        rcases hstatus with hdelivered | hprocessing
        · rw [hsame] at hfind
          exact absurd ⟨lease, hlease, rfl, hsame, hlive⟩ (hallowed ⟨event, hfind, hdelivered⟩ lease.worker)
        · have hkeep : reopenEvent world.now payload event = event :=
            if_neg (by rw [hprocessing]; decide)
          rw [Option.map_some, hkeep]
          exact ⟨event, rfl, Or.inr ⟨rfl, rfl⟩⟩
      · rw [if_neg hsame, if_neg hsame]
        exact ⟨event, rfl, Or.inr ⟨rfl, rfl⟩⟩

theorem leasesSound_claim (worker : ℕ) (eventId : List Char) (leaseSeconds : ℤ) :
    LeasesSound (workerStep settings (.claim worker eventId leaseSeconds) world) := by
  unfold workerStep
  dsimp only
  split
  next spool hclaim =>
    obtain ⟨event, hfind, hdelivered, hflight, hevents, -⟩ := claim_claimed hclaim
    -- nobody has an unexpired lease of an event whose claim is granted
    have hfree : ∀ lease ∈ world.leases, world.now < lease.leaseUntil → lease.eventId ≠ eventId := by
      rintro lease hlease hlive rfl
      obtain ⟨other, hother, hcurrent⟩ := h.current lease hlease hlive
      obtain rfl : event = other := Option.some.inj (hfind.symm.trans hother)
      rcases hcurrent with hstatus | ⟨hstatus, huntil⟩
      · exact hdelivered hstatus
      · unfold inFlight at hflight
        rw [hstatus, huntil] at hflight
        simp [hlive] at hflight
    have hid : ∀ event, (claimEvent world.now leaseSeconds event).eventId = event.eventId := fun _ => rfl
    refine ⟨by rw [hevents, ids_update _ hid]; exact h.nodup, ?_, ?_⟩
    · intro lease hlease hlive
      rw [hevents, findEvent_update _ hid]
      rcases List.mem_cons.mp hlease with rfl | hlease
      · rw [if_pos rfl, hfind]
        exact ⟨claimEvent world.now leaseSeconds event, rfl, Or.inr ⟨rfl, rfl⟩⟩
      · rw [if_neg (hfree lease hlease hlive)]
        exact h.current lease hlease hlive
    · intro first hfirst second hsecond hfirstLive hsecondLive hsame
      rcases List.mem_cons.mp hfirst with rfl | hfirst
      · rcases List.mem_cons.mp hsecond with rfl | hsecond
        · rfl
        · exact absurd hsame.symm (hfree second hsecond hsecondLive)
      · rcases List.mem_cons.mp hsecond with rfl | hsecond
        · exact absurd hsame (hfree first hfirst hfirstLive)
        · exact h.unique first hfirst second hsecond hfirstLive hsecondLive hsame
  next => exact h

theorem leasesSound_markFailed (worker : ℕ) (eventId error : List Char)
    (retryAfter : ℤ) (hallowed : InTime settings world (.markFailed worker eventId error retryAfter)) :
    LeasesSound (workerStep settings (.markFailed worker eventId error retryAfter) world) := by
  have hid : ∀ event, (failEvent world.now error retryAfter event).eventId = event.eventId := fun _ => rfl
  have hevents : (markFailed world.now eventId error retryAfter world.spool).events
      = updateEvent eventId (failEvent world.now error retryAfter) world.spool.events := rfl
  refine h.keep (by rw [hevents, ids_update _ hid]; exact h.nodup)
    (fun lease hlease => (mem_withoutLease.mp hlease).1) ?_
  intro lease hlease hlive event hfind _
  obtain ⟨hmem, hother⟩ := mem_withoutLease.mp hlease
  rw [hevents, findEvent_update _ hid]
  by_cases hsame : lease.eventId = eventId
  · exact absurd ⟨hallowed.2 lease.worker ⟨lease, hmem, rfl, hsame, hlive⟩, hsame⟩ hother
  · rw [if_neg hsame]
    exact ⟨event, hfind, Or.inr ⟨rfl, rfl⟩⟩

theorem leasesSound_step (op : WorkerOp) (hallowed : InTime settings world op) :
    LeasesSound (workerStep settings op world) := by
  cases op with
  | wait duration => exact leasesSound_wait h duration
  | enqueue eventId payload refresh reopen =>
      exact leasesSound_enqueue h eventId payload refresh reopen hallowed
  | claim worker eventId leaseSeconds => exact leasesSound_claim h worker eventId leaseSeconds
  | markDelivered worker eventId =>
      exact h.deliver (deliverEvent world.now) (fun _ => rfl) (fun _ => rfl) rfl
        (fun lease hlease => (mem_withoutLease.mp hlease).1)
  | markFailed worker eventId error retryAfter =>
      exact leasesSound_markFailed h worker eventId error retryAfter hallowed
  | markIgnored eventId reason =>
      rcases markIgnored_cases settings world.now eventId reason world.spool with hsame | ⟨chatStats, hspool⟩
      · refine h.keep (by rw [hsame]; exact h.nodup) (fun _ hlease => hlease) ?_
        intro lease _ _ event hfind _
        rw [hsame]
        exact ⟨event, hfind, Or.inr ⟨rfl, rfl⟩⟩
      · exact h.deliver (ignoreEvent world.now reason) (fun _ => rfl) (fun _ => rfl)
          (by rw [hspool]; rfl) (fun _ hlease => hlease)

end

theorem leasesSound_run {start : SpoolWorld} (hstart : LeasesSound start)
    (hrun : WorkerRun settings (InTime settings) start world) : LeasesSound world := by
  induction hrun with
  | refl => exact hstart
  | tail _ hstep ih =>
      obtain ⟨op, hallowed, rfl⟩ := hstep
      exact leasesSound_step ih op hallowed

/-! ## Delivered events -/

theorem isDelivered_of_events {before after : EventSpool} {eventId : List Char}
    (h : after.events = before.events) (hdelivered : IsDelivered before eventId) :
    IsDelivered after eventId := by
  unfold IsDelivered
  rw [h]
  exact hdelivered

/-- An update that leaves delivered events delivered. -/
theorem isDelivered_update {spool after : EventSpool} {eventId other : List Char}
    (change : SpoolEvent → SpoolEvent) (hid : ∀ event, (change event).eventId = event.eventId)
    (hevents : after.events = updateEvent other change spool.events)
    (hchange : ∀ event, findEvent eventId spool.events = some event → event.status = .delivered →
      eventId = other → (change event).status = .delivered) (h : IsDelivered spool eventId) :
    IsDelivered after eventId := by
  obtain ⟨event, hfind, hstatus⟩ := h
  unfold IsDelivered
  rw [hevents, findEvent_update change hid, hfind]
  by_cases hsame : eventId = other
  · rw [if_pos hsame]
    exact ⟨change event, rfl, hchange event hfind hstatus hsame⟩
  · rw [if_neg hsame]
    exact ⟨event, rfl, hstatus⟩

theorem isDelivered_step {eventId : List Char} (h : IsDelivered world.spool eventId) (op : WorkerOp)
    (hallowed : InTime settings world op) (hreopens : ¬ Reopens settings eventId op) :
    IsDelivered (workerStep settings op world).spool eventId := by
  cases op with
  | wait duration => exact h
  | enqueue other payload refresh reopen =>
      obtain ⟨-, hevents | ⟨-, hevents⟩ | ⟨-, -, hevents⟩ | ⟨rfl, rfl, hevents⟩⟩ :=
        enqueue_cases settings world.now other payload refresh reopen world.spool
      · exact isDelivered_of_events hevents h
      · obtain ⟨event, hfind, hstatus⟩ := h
        refine ⟨event, ?_, hstatus⟩
        change findEvent eventId (kept world.spool _).events = some event
        rw [hevents]
        exact findEvent_concat _ hfind
      · refine isDelivered_update _ (refreshEvent_eventId payload) hevents ?_ h
        intro event _ hstatus _
        rw [refreshEvent_status]
        exact hstatus
      · -- a reopening of another event
        have hne : eventId ≠ settings.strip other := fun heq => hreopens ⟨heq.symm, rfl, rfl⟩
        have hrefreshed : IsDelivered { world.spool with
            events := updateEvent (settings.strip other) (refreshEvent world.now payload)
              world.spool.events } eventId :=
          isDelivered_update _ (refreshEvent_eventId payload) rfl (fun _ _ _ hsame => absurd hsame hne) h
        refine isDelivered_update (reopenEvent world.now payload) (reopenEvent_eventId payload) ?_
          (fun _ _ _ hsame => absurd hsame hne) hrefreshed
        exact hevents
  | claim worker other leaseSeconds =>
      unfold workerStep
      dsimp only
      split
      next spool hclaim =>
        obtain ⟨event, hfind, hdelivered, -, hevents, -⟩ := claim_claimed hclaim
        refine isDelivered_update (claimEvent world.now leaseSeconds) (fun _ => rfl) hevents ?_ h
        rintro found hfound hstatus rfl
        rw [hfind] at hfound
        rw [← Option.some.inj hfound] at hstatus
        exact absurd hstatus hdelivered
      next => exact h
  | markDelivered worker other =>
      exact isDelivered_update (deliverEvent world.now) (fun _ => rfl) rfl (fun _ _ _ _ => rfl) h
  | markFailed worker other error retryAfter =>
      refine isDelivered_update (failEvent world.now error retryAfter) (fun _ => rfl) rfl ?_ h
      rintro event hfind hstatus rfl
      exact absurd ⟨event, hfind, hstatus⟩ hallowed.1
  | markIgnored other reason =>
      rcases markIgnored_cases settings world.now other reason world.spool with hsame | ⟨chatStats, hspool⟩
      · exact isDelivered_of_events (by rw [workerStep, hsame]) h
      · have hevents : (markIgnored settings world.now other reason world.spool).2.events
            = updateEvent (settings.strip other) (ignoreEvent world.now reason) world.spool.events := by
          rw [hspool]
          rfl
        exact isDelivered_update (ignoreEvent world.now reason) (fun _ => rfl) hevents (fun _ _ _ _ => rfl) h

theorem not_mem_due {spool : EventSpool} (hnodup : (spool.events.map SpoolEvent.eventId).Nodup)
    {eventId : List Char} (h : IsDelivered spool eventId) (now limit : ℤ) :
    ∀ event ∈ due now limit spool, event.eventId ≠ eventId := by
  rintro event hevent rfl
  have hmem := (List.mem_insertionSort createdLe).mp (List.mem_of_mem_take hevent)
  obtain ⟨hevents, hdue⟩ := List.mem_filter.mp hmem
  obtain ⟨found, hfind, hstatus⟩ := h
  obtain rfl : event = found := Option.some.inj ((Keyed.find_of_mem hnodup hevents).symm.trans hfind)
  unfold isDue at hdue
  rw [hstatus] at hdue
  simp at hdue

/-- **Where no failure is late and no reopening early**, at most one worker has an unexpired lease on an event,
    and a delivered event stays delivered, is not due and is not claimed until it is reopened. -/
theorem leases_exclusive {now : ℤ} (hrun : WorkerRun settings (InTime settings) { now := now } world) :
    (∀ eventId first second, HoldsLease world first eventId → HoldsLease world second eventId →
      first = second) ∧
    ∀ eventId, IsDelivered world.spool eventId → ∀ later,
      WorkerRun settings (fun world op => InTime settings world op ∧ ¬ Reopens settings eventId op)
        world later →
      IsDelivered later.spool eventId ∧
        (∀ limit, ∀ event ∈ due later.now limit later.spool, event.eventId ≠ eventId) ∧
        ∀ leaseSeconds, claim later.now eventId leaseSeconds later.spool = .ok (.delivered, later.spool) := by
  have hsound := leasesSound_run (leasesSound_empty now) hrun
  constructor
  · rintro eventId first second ⟨one, hone, rfl, hfirst, hfirstLive⟩ ⟨two, htwo, rfl, hsecond, hsecondLive⟩
    exact hsound.unique one hone two htwo hfirstLive hsecondLive (hfirst.trans hsecond.symm)
  · intro eventId hdelivered later hlater
    have hboth : IsDelivered later.spool eventId ∧ LeasesSound later := by
      induction hlater with
      | refl => exact ⟨hdelivered, hsound⟩
      | tail _ hstep ih =>
          obtain ⟨op, ⟨hallowed, hreopens⟩, rfl⟩ := hstep
          exact ⟨isDelivered_step ih.1 op hallowed hreopens, leasesSound_step ih.2 op hallowed⟩
    refine ⟨hboth.1, fun limit => not_mem_due hboth.2.nodup hboth.1 later.now limit, fun leaseSeconds => ?_⟩
    obtain ⟨event, hfind, hstatus⟩ := hboth.1
    exact claim_delivered hfind hstatus

/-! ## A late failure -/

def worldAfter (ops : List WorkerOp) (world : SpoolWorld) : SpoolWorld :=
  ops.foldl (fun world op => workerStep bridgeSettings op world) world

theorem run_worldAfter (allowed : SpoolWorld → WorkerOp → Prop) (ops : List WorkerOp) (world : SpoolWorld)
    (hallowed : ∀ world, ∀ op ∈ ops, allowed world op) :
    WorkerRun bridgeSettings allowed world (worldAfter ops world) := by
  induction ops generalizing world with
  | nil => exact Relation.ReflTransGen.refl
  | cons op rest ih =>
      exact Relation.ReflTransGen.head ⟨op, hallowed world op List.mem_cons_self, rfl⟩
        (ih _ (fun world other hother => hallowed world other (List.mem_cons_of_mem _ hother)))

/-- The first worker claims the event and its lease expires, then the second claims it. -/
def expiredClaim : List WorkerOp :=
  [.enqueue ['e'] (textPayload "a" "one") false false, .claim 1 ['e'] 300, .wait 301000000,
    .claim 2 ['e'] 300]

theorem leases_exclusive_expiredClaim : ¬ HoldsLease (worldAfter expiredClaim {}) 1 ['e'] := by
  have hrun : WorkerRun bridgeSettings (InTime bridgeSettings) {} (worldAfter expiredClaim {}) := by
    refine run_worldAfter _ expiredClaim {} (fun world op hop => ?_)
    simp only [expiredClaim, List.mem_cons, List.not_mem_nil, or_false] at hop
    rcases hop with rfl | rfl | rfl | rfl <;> trivial
  have hsecond : HoldsLease (worldAfter expiredClaim {}) 2 ['e'] := by
    unfold HoldsLease
    decide +kernel
  intro hfirst
  exact absurd ((leases_exclusive hrun).1 ['e'] 1 2 hfirst hsecond) (by decide)

/-- The first worker reports its failure late: while the second has the event, so that a third claims it too,
    or once the second has delivered it, so that it is not delivered any more. -/
theorem late_failure_is_written :
    (∃ world, WorkerRun bridgeSettings (fun _ _ => True) {} world ∧
      HoldsLease world 2 ['e'] ∧ HoldsLease world 3 ['e']) ∧
    ∃ world later, WorkerRun bridgeSettings (fun _ _ => True) {} world ∧ IsDelivered world.spool ['e'] ∧
      WorkerRun bridgeSettings (fun _ op => ¬ Reopens bridgeSettings ['e'] op) world later ∧
      ¬ IsDelivered later.spool ['e'] := by
  refine ⟨⟨_, run_worldAfter _ (expiredClaim ++ [.markFailed 1 ['e'] [] 30, .claim 3 ['e'] 300]) {}
      (fun _ _ _ => trivial), ?_, ?_⟩,
    ⟨_, _, run_worldAfter _ (expiredClaim ++ [.markDelivered 2 ['e']]) {} (fun _ _ _ => trivial), ?_,
      run_worldAfter _ [.markFailed 1 ['e'] [] 30] _ ?_, ?_⟩⟩
  · unfold HoldsLease
    decide +kernel
  · unfold HoldsLease
    decide +kernel
  · exact ⟨_, rfl, rfl⟩
  · intro world op hop
    rw [List.mem_singleton.mp hop]
    exact not_false
  · rintro ⟨event, hfind, hstatus⟩
    have hfailed : (findEvent ['e'] (worldAfter [.markFailed 1 ['e'] [] 30]
        (worldAfter (expiredClaim ++ [.markDelivered 2 ['e']]) {})).spool.events).map SpoolEvent.status
          = some .failed := by
      decide +kernel
    rw [hfind, Option.map_some, hstatus] at hfailed
    exact absurd hfailed (by decide)

end TradingHarness
