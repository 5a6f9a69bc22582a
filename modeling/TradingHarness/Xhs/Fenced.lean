import Mathlib.Data.List.Induction
import TradingHarness.Library.Driven
import TradingHarness.Xhs.Jobs

set_option autoImplicit false

/-! # Fenced jobs

What workers, deliveries and retries can do to a job: a result is written under the job's lease and once, and a finished
job does not go back to the workers. The bound on attempts holds where no claim takes over a fifth attempt. -/

namespace TradingHarness.Xhs

/-! ## Histories -/

/-- What happens to a job. A lease is released by a failure. -/
inductive JobEvent
  | claimed (jobId : String) (lease : ℕ) (expiry : Timestamp)
  | extended (jobId : String) (expiry : Timestamp)
  | written (jobId : String) (lease : ℕ) (moment : Timestamp)
  | released (jobId : String)
  | restarted (jobId : String)

def JobEvent.jobId : JobEvent → String
  | .claimed jobId _ _ => jobId
  | .extended jobId _ => jobId
  | .written jobId _ _ => jobId
  | .released jobId => jobId
  | .restarted jobId => jobId

/-- The events of one job, the newest first. -/
def historyOf (jobId : String) (log : List JobEvent) : List JobEvent :=
  log.filter (fun event => decide (event.jobId = jobId))

/-- The lease of the last claim, with the expiry of its last extension, until it is used up. -/
def heldLease : List JobEvent → Option (ℕ × Timestamp)
  | [] => none
  | .claimed _ lease expiry :: _ => some (lease, expiry)
  | .extended _ expiry :: earlier => (heldLease earlier).map (fun held => (held.1, expiry))
  | _ :: _ => none

/-- The claims since the job was queued last by hand. -/
def claimsSince : List JobEvent → ℕ
  | [] => 0
  | .claimed _ _ _ :: earlier => claimsSince earlier + 1
  | .restarted _ :: _ => 0
  | _ :: earlier => claimsSince earlier

def writesSince : List JobEvent → ℕ
  | [] => 0
  | .written _ _ _ :: earlier => writesSince earlier + 1
  | .restarted _ :: _ => 0
  | _ :: earlier => writesSince earlier

/-- Each result was written under the job's lease before it expired, and was the first since the job was queued. -/
def WritesFenced : List JobEvent → Prop
  | [] => True
  | .written jobId lease moment :: earlier =>
    ((∃ expiry, heldLease (historyOf jobId earlier) = some (lease, expiry) ∧ moment ≤ expiry) ∧
      writesSince (historyOf jobId earlier) = 0) ∧ WritesFenced earlier
  | _ :: earlier => WritesFenced earlier

/-! ## Steps -/

structure JobWorld (π ρ δ : Type) where
  jobs : List (Job π ρ δ) := []
  nextLease : ℕ := 0
  log : List JobEvent := []

inductive JobOp (π ρ : Type)
  | insert (fresh : NewJob π ρ)
  | claim (worker lane : String) (now : Timestamp)
  | heartbeat (jobId : String) (lease : ℕ) (now : Timestamp)
  | complete (jobId : String) (lease : ℕ) (result : ρ) (now : Timestamp)
  | fail (jobId : String) (lease : ℕ) (error : String) (now : Timestamp)
  | delivered (jobId : String)
  | retryJob (jobId : String)
  | retryFilter (runId : String)
  | requestSingleNote (fresh : NewJob π ρ) (revise : π → π)

section Steps

variable {π ρ δ : Type}

/-- A failed job is queued again by hand. -/
def restartEvents (jobId : String) (jobs : List (Job π ρ δ)) : List JobEvent :=
  match Keyed.find Job.jobId jobId jobs with
  | some job => if job.status = .failed then [.restarted jobId] else []
  | none => []

/-- One call of the store. A call that raises changes nothing. -/
def jobStep [DecidableEq δ] (digest : ρ → δ) (refuses : Option (Job π ρ δ) → ρ → Option String) (op : JobOp π ρ)
    (world : JobWorld π ρ δ) : JobWorld π ρ δ :=
  match op with
  | .insert fresh => { world with jobs := insertJob fresh world.jobs }
  | .claim worker lane now =>
    match claim worker lane world.nextLease now world.jobs with
    | .ok (some job, jobs) =>
      ⟨jobs, world.nextLease + 1, .claimed job.jobId world.nextLease (now + leaseSpan) :: world.log⟩
    | _ => world
  | .heartbeat jobId lease now =>
    match heartbeat jobId lease now world.jobs with
    | .ok jobs => { world with jobs := jobs, log := .extended jobId (now + leaseSpan) :: world.log }
    | .error _ => world
  | .complete jobId lease result now =>
    match complete digest refuses jobId lease result now world.jobs with
    | .ok (.written, jobs) => { world with jobs := jobs, log := .written jobId lease now :: world.log }
    | _ => world
  | .fail jobId lease error now =>
    match fail jobId lease error now world.jobs with
    | .ok jobs => { world with jobs := jobs, log := .released jobId :: world.log }
    | .error _ => world
  | .delivered jobId => { world with jobs := delivered jobId world.jobs }
  | .retryJob jobId =>
    { world with jobs := retryJob jobId world.jobs, log := restartEvents jobId world.jobs ++ world.log }
  | .retryFilter runId =>
    { world with
      jobs := retryFilterJob runId world.jobs
      log := (filterJobOf runId world.jobs).elim [] (fun filter => restartEvents filter.jobId world.jobs) ++ world.log }
  | .requestSingleNote fresh revise =>
    { world with
      jobs := requestSingleNote fresh revise world.jobs
      log := restartEvents fresh.jobId world.jobs ++ world.log }

/-- The first in line for a claim is no job whose fifth lease has expired. -/
def ClaimFits (world : JobWorld π ρ δ) : JobOp π ρ → Prop
  | .claim _ lane now => ∀ known, parseLane lane = some known → ∀ job ∈ world.jobs,
      claimable known now job = true → (∀ other ∈ world.jobs, claimable known now other = true → ClaimedBefore job other) →
      job.status = .processing → job.attempts < maxAttempts
  | _ => True

/-- The job has its result and is out of the workers' hands. -/
def Finished (status : JobStatus) : Prop := status = .ready ∨ status = .completed ∨ status = .sent

/-! ## The invariant -/

/-- A row agrees with the history of its job. -/
structure RowSound (history : List JobEvent) (job : Job π ρ δ) : Prop where
  attempts : job.attempts = claimsSince history
  held : job.status = .processing → ∃ lease expiry, job.leaseToken = some lease ∧ job.leaseUntil = some expiry ∧
    heldLease history = some (lease, expiry)
  unwritten : ¬ Finished job.status → writesSince history = 0
  waiting : job.status = .pending → job.attempts < maxAttempts

structure JobsSound (world : JobWorld π ρ δ) : Prop where
  keys : (world.jobs.map Job.jobId).Nodup
  rows : ∀ job ∈ world.jobs, RowSound (historyOf job.jobId world.log) job
  unknown : ∀ jobId, Keyed.find Job.jobId jobId world.jobs = none → historyOf jobId world.log = []
  writes : WritesFenced world.log

variable {world : JobWorld π ρ δ} {history : List JobEvent} {job : Job π ρ δ} {jobId : String}

theorem historyOf_append (events log : List JobEvent) (h : ∀ event ∈ events, event.jobId = jobId) :
    historyOf jobId (events ++ log) = events ++ historyOf jobId log := by
  unfold historyOf
  rw [List.filter_append, List.filter_eq_self.mpr (fun event hevent => decide_eq_true (h event hevent))]

theorem historyOf_append_of_ne {other : String} (hne : other ≠ jobId) (events log : List JobEvent)
    (h : ∀ event ∈ events, event.jobId = jobId) : historyOf other (events ++ log) = historyOf other log := by
  have hnone : events.filter (fun event => decide (event.jobId = other)) = [] := by
    refine List.filter_eq_nil_iff.mpr (fun event hevent hother => ?_)
    exact hne ((of_decide_eq_true hother).symm.trans (h event hevent))
  unfold historyOf
  rw [List.filter_append, hnone, List.nil_append]

/-- An update of a job, with what is logged of it. -/
theorem JobsSound.update (h : JobsSound world) {change : Job π ρ δ → Job π ρ δ}
    (hkey : ∀ job, (change job).jobId = job.jobId) {events : List JobEvent}
    (hevents : ∀ event ∈ events, event.jobId = jobId) (nextLease : ℕ)
    (hrow : ∀ job ∈ world.jobs, job.jobId = jobId → RowSound (events ++ historyOf jobId world.log) (change job))
    (hwrites : WritesFenced (events ++ world.log))
    (hknown : events = [] ∨ Keyed.find Job.jobId jobId world.jobs ≠ none) :
    JobsSound ⟨Keyed.update Job.jobId jobId change world.jobs, nextLease, events ++ world.log⟩ := by
  have hkeys : (Keyed.update Job.jobId jobId change world.jobs).map Job.jobId = world.jobs.map Job.jobId :=
    Keyed.map_update change Job.jobId (fun job _ _ => hkey job)
  refine ⟨by rw [hkeys]; exact h.keys, fun job hjob => ?_, fun other hnone => ?_, hwrites⟩
  · rcases Keyed.mem_update.mp hjob with ⟨old, hold, hid, rfl⟩ | ⟨hold, hid⟩
    · have hsame : (change old).jobId = jobId := (hkey old).trans hid
      rw [hsame, historyOf_append events world.log hevents]
      exact hrow old hold hid
    · rw [historyOf_append_of_ne hid events world.log hevents]
      exact h.rows job hold
  · have hbefore : Keyed.find Job.jobId other world.jobs = none := by
      rw [Keyed.find_eq_none] at hnone ⊢
      rw [← hkeys]
      exact hnone
    by_cases hother : other = jobId
    · rcases hknown with rfl | hfound
      · exact h.unknown other hbefore
      · rw [hother] at hbefore
        exact absurd hbefore hfound
    · show historyOf other (events ++ world.log) = []
      rw [historyOf_append_of_ne hother events world.log hevents]
      exact h.unknown other hbefore

theorem rowSound_fresh (fresh : NewJob π ρ) : RowSound [] (fresh.row : Job π ρ δ) := by
  refine ⟨rfl, fun hprocessing => ?_, fun _ => rfl, fun _ => Nat.zero_lt_succ 4⟩
  unfold NewJob.row at hprocessing
  dsimp only at hprocessing
  split at hprocessing
  next => exact absurd hprocessing (by simp)
  next => exact absurd hprocessing (by simp)

theorem JobsSound.insert (h : JobsSound world) (fresh : NewJob π ρ) :
    JobsSound { world with jobs := insertJob fresh world.jobs } := by
  unfold insertJob
  split
  next hnone =>
    have hnew := Keyed.find_eq_none.mp hnone
    refine ⟨?_, fun job hjob => ?_, fun other hother => ?_, h.writes⟩
    · rw [List.map_append, List.nodup_append]
      refine ⟨h.keys, List.nodup_singleton _, ?_⟩
      rintro key hkey other hother rfl
      rw [List.map_singleton, List.mem_singleton] at hother
      rw [hother] at hkey
      exact hnew hkey
    · rcases List.mem_append.mp hjob with hold | hlast
      · exact h.rows job hold
      · rw [List.mem_singleton.mp hlast]
        have hempty : historyOf (fresh.row : Job π ρ δ).jobId world.log = [] := h.unknown _ hnone
        rw [hempty]
        exact rowSound_fresh fresh
    · refine h.unknown other (Keyed.find_eq_none.mpr (fun hmem => ?_))
      refine Keyed.find_eq_none.mp hother ?_
      rw [List.map_append]
      exact List.mem_append_left _ hmem
  next => exact h

/-! ## One lemma for each kind of write -/

theorem rowSound_underLease (h : RowSound history job) (hstatus : ¬ Finished job.status) (worker : String) (lease : ℕ)
    (now : Timestamp) :
    RowSound (.claimed jobId lease (now + leaseSpan) :: history) (underLease worker lease now job) where
  attempts := congrArg (· + 1) h.attempts
  held := fun _ => ⟨lease, now + leaseSpan, rfl, rfl, rfl⟩
  unwritten := fun _ => h.unwritten hstatus
  waiting := fun hpending => absurd hpending (by simp [underLease])

theorem heldBy_iff {lease : ℕ} {now : Timestamp} : heldBy lease now job = true ↔
    (job.leaseToken = some lease ∧ job.status = .processing) ∧ ∃ expiry, job.leaseUntil = some expiry ∧ now ≤ expiry := by
  unfold heldBy
  rw [Bool.and_eq_true, decide_eq_true_iff, Option.any_eq_true]
  simp

theorem RowSound.lease (h : RowSound history job) {lease : ℕ} {now : Timestamp} (hheld : heldBy lease now job = true) :
    ∃ expiry, heldLease history = some (lease, expiry) ∧ now ≤ expiry := by
  obtain ⟨⟨htoken, hprocessing⟩, expiry, huntil, hnow⟩ := heldBy_iff.mp hheld
  obtain ⟨token, until', htoken', huntil', hhistory⟩ := h.held hprocessing
  rw [htoken] at htoken'
  rw [huntil] at huntil'
  obtain rfl := Option.some.inj htoken'
  obtain rfl := Option.some.inj huntil'
  exact ⟨expiry, hhistory, hnow⟩

theorem rowSound_extended (h : RowSound history job) (hprocessing : job.status = .processing) (expiry : Timestamp) :
    RowSound (.extended jobId expiry :: history) { job with leaseUntil := some expiry } := by
  obtain ⟨lease, old, htoken, -, hhistory⟩ := h.held hprocessing
  refine ⟨h.attempts, fun _ => ⟨lease, expiry, htoken, rfl, ?_⟩, h.unwritten, h.waiting⟩
  rw [heldLease, hhistory]
  rfl

theorem finished_nextStatus (job : Job π ρ δ) : Finished (nextStatus job) := by
  unfold nextStatus
  split
  · split
    · exact Or.inl rfl
    · exact Or.inr (Or.inl rfl)
  · split
    · exact Or.inl rfl
    · exact Or.inr (Or.inl rfl)
  · exact Or.inr (Or.inl rfl)
  · exact Or.inr (Or.inl rfl)
  · exact Or.inr (Or.inl rfl)
  · exact Or.inl rfl

theorem Finished.not_processing {status : JobStatus} (h : Finished status) : status ≠ .processing := by
  rintro rfl
  rcases h with h | h | h
  · exact absurd h (by simp)
  · exact absurd h (by simp)
  · exact absurd h (by simp)

theorem Finished.not_pending {status : JobStatus} (h : Finished status) : status ≠ .pending := by
  rintro rfl
  rcases h with h | h | h
  · exact absurd h (by simp)
  · exact absurd h (by simp)
  · exact absurd h (by simp)

theorem rowSound_of_finished (hattempts : job.attempts = claimsSince history) (h : Finished job.status) :
    RowSound history job :=
  ⟨hattempts, fun hprocessing => absurd hprocessing h.not_processing, fun hnot => absurd h hnot,
    fun hpending => absurd hpending h.not_pending⟩

theorem rowSound_withFailure (h : RowSound history job) (hprocessing : job.status = .processing) (error : String)
    (now : Timestamp) : RowSound (.released jobId :: history) (withFailure error now job) := by
  have hunwritten : writesSince history = 0 := h.unwritten (fun hfinished => hfinished.not_processing hprocessing)
  refine ⟨h.attempts, fun hstatus => ?_, fun _ => hunwritten, fun hstatus => ?_⟩
  · unfold withFailure at hstatus
    dsimp only at hstatus
    split at hstatus
    next => exact absurd hstatus (by simp)
    next => exact absurd hstatus (by simp)
  · unfold withFailure at hstatus ⊢
    dsimp only at hstatus ⊢
    split at hstatus
    next => exact absurd hstatus (by simp)
    next hfew => exact not_le.mp hfew

theorem rowSound_restarted (history : List JobEvent) {job : Job π ρ δ} (hstatus : job.status = .pending)
    (hattempts : job.attempts = 0) : RowSound (.restarted jobId :: history) job :=
  ⟨hattempts, fun hprocessing => absurd (hstatus.symm.trans hprocessing) (by simp), fun _ => rfl,
    fun _ => by rw [hattempts]; decide⟩

theorem rowSound_delivered (h : RowSound history job) :
    RowSound history (if job.status = .ready then { job with status := .sent, lastError := none } else job) := by
  split
  next => exact rowSound_of_finished h.attempts (Or.inr (Or.inr rfl))
  next => exact h

theorem rowSound_asRequested (h : RowSound history job) (hfailed : job.status ≠ .failed) (deliver : Bool) (revise : π → π) :
    RowSound history (asRequested deliver revise job) := by
  unfold asRequested
  dsimp only
  rw [if_neg hfailed]
  split
  next => exact rowSound_of_finished h.attempts (Or.inl rfl)
  next => exact ⟨h.attempts, h.held, h.unwritten, h.waiting⟩

/-! ## Steps keep the invariant -/

theorem writesFenced_restartEvents (h : WritesFenced world.log) (jobId : String) :
    WritesFenced (restartEvents jobId world.jobs ++ world.log) := by
  unfold restartEvents
  split
  next =>
    split
    next => exact h
    next => exact h
  next => exact h

theorem restartEvents_jobId {event : JobEvent} (h : event ∈ restartEvents jobId world.jobs) : event.jobId = jobId := by
  unfold restartEvents at h
  split at h
  next =>
    split at h
    next => rw [List.mem_singleton.mp h]; rfl
    next => exact absurd h (List.not_mem_nil)
  next => exact absurd h (List.not_mem_nil)

/-- A change by hand that queues a failed job again and keeps the others where they are. -/
theorem JobsSound.requeue (h : JobsSound world) (jobId : String) {change : Job π ρ δ → Job π ρ δ}
    (hkey : ∀ job, (change job).jobId = job.jobId)
    (hfailed : ∀ job, job.status = .failed → (change job).status = .pending ∧ (change job).attempts = 0)
    (hother : ∀ job history, job.status ≠ .failed → RowSound history job → RowSound history (change job)) :
    JobsSound ⟨Keyed.update Job.jobId jobId change world.jobs, world.nextLease,
      restartEvents jobId world.jobs ++ world.log⟩ := by
  refine h.update hkey (fun event => restartEvents_jobId) world.nextLease (fun job hjob hid => ?_)
    (writesFenced_restartEvents h.writes jobId) ?_
  · have hfind : Keyed.find Job.jobId jobId world.jobs = some job := hid ▸ Keyed.find_of_mem h.keys hjob
    unfold restartEvents
    rw [hfind]
    dsimp only
    by_cases hstatus : job.status = .failed
    · obtain ⟨hpending, hattempts⟩ := hfailed job hstatus
      rw [if_pos hstatus]
      exact rowSound_restarted _ hpending hattempts
    · rw [if_neg hstatus]
      exact hother job _ hstatus (hid ▸ h.rows job hjob)
  · rcases hfind : Keyed.find Job.jobId jobId world.jobs with _ | job
    · left
      unfold restartEvents
      rw [hfind]
    · right
      simp

theorem selectJob_spec {lane : Lane} {now : Timestamp} (h : selectJob lane now world.jobs = some job) :
    job ∈ world.jobs ∧ claimable lane now job = true := by
  have hmem := List.mem_of_mem_head? (Option.mem_def.mpr h)
  rw [List.mem_insertionSort, List.mem_filter] at hmem
  exact hmem

theorem claimable_open {lane : Lane} {now : Timestamp} (h : claimable lane now job = true) : ¬ Finished job.status := by
  unfold claimable at h
  rw [Bool.and_eq_true, Bool.or_eq_true, Bool.and_eq_true, decide_eq_true_iff, decide_eq_true_iff] at h
  intro hfinished
  rcases h.2 with ⟨hpending, -⟩ | ⟨hprocessing, -⟩
  · exact hfinished.not_pending hpending
  · exact hfinished.not_processing hprocessing

theorem claimedBefore_total (job other : Job π ρ δ) : ClaimedBefore job other ∨ ClaimedBefore other job := by
  rcases lt_trichotomy (claimRank job) (claimRank other) with hrank | hrank | hrank
  · exact Or.inl (Or.inl hrank)
  · rcases le_total job.created other.created with hcreated | hcreated
    · exact Or.inl (Or.inr ⟨hrank, hcreated⟩)
    · exact Or.inr (Or.inr ⟨hrank.symm, hcreated⟩)
  · exact Or.inr (Or.inl hrank)

theorem ClaimedBefore.trans {other third : Job π ρ δ} (h : ClaimedBefore job other) (hthird : ClaimedBefore other third) :
    ClaimedBefore job third := by
  rcases h with hrank | ⟨hrank, hcreated⟩
  · rcases hthird with hrank' | ⟨hrank', -⟩
    · exact Or.inl (hrank.trans hrank')
    · exact Or.inl (hrank' ▸ hrank)
  · rcases hthird with hrank' | ⟨hrank', hcreated'⟩
    · exact Or.inl (hrank ▸ hrank')
    · exact Or.inr ⟨hrank.trans hrank', hcreated.trans hcreated'⟩

theorem selectJob_first {lane : Lane} {now : Timestamp} (h : selectJob lane now world.jobs = some job)
    {other : Job π ρ δ} (hother : other ∈ world.jobs) (hclaimable : claimable lane now other = true) :
    ClaimedBefore job other := by
  have htotal : Std.Total (@ClaimedBefore π ρ δ) := ⟨claimedBefore_total⟩
  have htrans : IsTrans (Job π ρ δ) ClaimedBefore := ⟨fun _ _ _ => ClaimedBefore.trans⟩
  have hsorted := List.pairwise_insertionSort (@ClaimedBefore π ρ δ) (world.jobs.filter (claimable lane now))
  have hmem : other ∈ (world.jobs.filter (claimable lane now)).insertionSort ClaimedBefore := by
    rw [List.mem_insertionSort, List.mem_filter]
    exact ⟨hother, hclaimable⟩
  unfold selectJob at h
  obtain ⟨rest, hrest⟩ := List.head?_eq_some_iff.mp h
  rw [hrest] at hsorted hmem
  rcases List.mem_cons.mp hmem with rfl | hlater
  · exact (claimedBefore_total other other).elim id id
  · exact List.rel_of_pairwise_cons hsorted hlater

theorem complete_written [DecidableEq δ] {digest : ρ → δ} {refuses : Option (Job π ρ δ) → ρ → Option String} {lease : ℕ}
    {result : ρ} {now : Timestamp} {jobs : List (Job π ρ δ)}
    (h : complete digest refuses jobId lease result now world.jobs = .ok (.written, jobs)) :
    ∃ job, Keyed.find Job.jobId jobId world.jobs = some job ∧ heldBy lease now job = true ∧
      jobs = Keyed.update Job.jobId jobId (withResult digest result) world.jobs := by
  unfold complete at h
  dsimp only at h
  split at h
  next => exact absurd h (by simp)
  next job hfind =>
    split at h
    next =>
      split at h
      next => exact absurd h (by simp)
      next hheld =>
        split at h
        next => exact absurd h (by simp)
        next => exact ⟨job, hfind, by simpa using hheld, by simpa using h.symm⟩
    next =>
      split at h
      next => exact absurd h (by simp)
      next =>
        split at h
        next => exact absurd h (by simp)
        next =>
          split at h
          next => exact absurd h (by simp)
          next hheld => exact ⟨job, hfind, by simpa using hheld, by simpa using h.symm⟩

theorem claim_taken {worker lane : String} {lease : ℕ} {now : Timestamp} {jobs : List (Job π ρ δ)}
    (h : claim worker lane lease now world.jobs = .ok (some job, jobs)) :
    ∃ known, parseLane lane = some known ∧ selectJob known now world.jobs = some job ∧
      jobs = Keyed.update Job.jobId job.jobId (underLease worker lease now) world.jobs := by
  unfold claim at h
  split at h
  next => exact absurd h (by simp)
  next known hknown =>
    split at h
    next => exact absurd h (by simp)
    next taken htaken =>
      rw [Except.ok.injEq, Prod.mk.injEq, Option.some.injEq] at h
      obtain ⟨rfl, hjobs⟩ := h
      exact ⟨known, hknown, htaken, hjobs.symm⟩

theorem heartbeat_ok {lease : ℕ} {now : Timestamp} {jobs : List (Job π ρ δ)}
    (h : heartbeat jobId lease now world.jobs = .ok jobs) :
    ∃ job, Keyed.find Job.jobId jobId world.jobs = some job ∧ heldBy lease now job = true ∧
      jobs = Keyed.update Job.jobId jobId (fun job => { job with leaseUntil := some (now + leaseSpan) }) world.jobs := by
  unfold heartbeat at h
  split at h
  next => exact absurd h (by simp)
  next job hfind =>
    split at h
    next hheld => exact ⟨job, hfind, hheld, (Except.ok.inj h).symm⟩
    next => exact absurd h (by simp)

theorem fail_ok {lease : ℕ} {error : String} {now : Timestamp} {jobs : List (Job π ρ δ)}
    (h : fail jobId lease error now world.jobs = .ok jobs) :
    ∃ job, Keyed.find Job.jobId jobId world.jobs = some job ∧ job.status = .processing ∧
      jobs = Keyed.update Job.jobId jobId (withFailure error now) world.jobs := by
  unfold fail at h
  split at h
  next => exact absurd h (by simp)
  next job hfind =>
    split at h
    next hheld => exact ⟨job, hfind, hheld.1, (Except.ok.inj h).symm⟩
    next => exact absurd h (by simp)

theorem eq_of_find (h : JobsSound world) {other : Job π ρ δ} (hfind : Keyed.find Job.jobId jobId world.jobs = some job)
    (hother : other ∈ world.jobs) (hid : other.jobId = jobId) : other = job := by
  have hsame := Keyed.find_of_mem h.keys hother
  rw [hid, hfind] at hsame
  exact (Option.some.inj hsame).symm

theorem JobsSound.record (h : JobsSound world) (event : JobEvent) (change : Job π ρ δ → Job π ρ δ)
    (hkey : ∀ job, (change job).jobId = job.jobId) (nextLease : ℕ)
    (hfind : Keyed.find Job.jobId event.jobId world.jobs = some job)
    (hrow : RowSound (event :: historyOf event.jobId world.log) (change job)) (hwrites : WritesFenced (event :: world.log)) :
    JobsSound ⟨Keyed.update Job.jobId event.jobId change world.jobs, nextLease, event :: world.log⟩ := by
  have hevents : ∀ logged ∈ [event], logged.jobId = event.jobId := by
    intro logged hlogged
    rw [List.mem_singleton.mp hlogged]
  refine h.update hkey hevents nextLease (fun other hother hid => ?_) hwrites (Or.inr (by rw [hfind]; simp))
  rw [eq_of_find h hfind hother hid]
  exact hrow

theorem retryFilterJob_eq (runId : String) (jobs : List (Job π ρ δ)) :
    retryFilterJob runId jobs = (filterJobOf runId jobs).elim jobs (fun filter =>
      Keyed.update Job.jobId filter.jobId (fun job => if job.status = .failed then restarted job else job) jobs) := by
  unfold retryFilterJob
  split
  next hnone => rw [hnone]; rfl
  next filter hsome => rw [hsome]; rfl

theorem restartEvents_insertJob (fresh : NewJob π ρ) (jobs : List (Job π ρ δ)) :
    restartEvents fresh.jobId (insertJob fresh jobs) = restartEvents fresh.jobId jobs := by
  unfold insertJob
  split
  next hnone =>
    have hfresh : Keyed.find Job.jobId (fresh.row : Job π ρ δ).jobId jobs = none := hnone
    have hlast : Keyed.find Job.jobId fresh.jobId (jobs ++ [(fresh.row : Job π ρ δ)]) = some fresh.row :=
      (Keyed.find_concat hfresh).trans (if_pos rfl)
    have hstatus : (fresh.row : Job π ρ δ).status ≠ .failed := by
      unfold NewJob.row
      dsimp only
      split
      next => simp
      next => simp
    unfold restartEvents
    rw [hnone, hlast]
    dsimp only
    rw [if_neg hstatus]
  next => rfl

theorem jobsSound_step [DecidableEq δ] (digest : ρ → δ) (refuses : Option (Job π ρ δ) → ρ → Option String)
    (op : JobOp π ρ) (h : JobsSound world) : JobsSound (jobStep digest refuses op world) := by
  cases op with
  | insert fresh => exact h.insert fresh
  | claim worker lane now =>
      unfold jobStep
      dsimp only
      split
      next job jobs hclaim =>
        obtain ⟨known, -, hselect, rfl⟩ := claim_taken hclaim
        obtain ⟨hjob, hclaimable⟩ := selectJob_spec hselect
        exact h.record (.claimed job.jobId world.nextLease (now + leaseSpan)) (underLease worker world.nextLease now)
          (fun _ => rfl) _ (Keyed.find_of_mem h.keys hjob)
          (rowSound_underLease (h.rows job hjob) (claimable_open hclaimable) worker world.nextLease now) h.writes
      next => exact h
  | heartbeat jobId lease now =>
      unfold jobStep
      dsimp only
      split
      next jobs hheartbeat =>
        obtain ⟨job, hfind, hheld, rfl⟩ := heartbeat_ok hheartbeat
        obtain ⟨hjob, rfl⟩ := Keyed.mem_of_find hfind
        exact h.record (.extended job.jobId (now + leaseSpan)) (fun job => { job with leaseUntil := some (now + leaseSpan) })
          (fun _ => rfl) _ hfind
          (rowSound_extended (h.rows job hjob) (heldBy_iff.mp hheld).1.2 _) h.writes
      next => exact h
  | complete jobId lease result now =>
      unfold jobStep
      dsimp only
      split
      next jobs hcomplete =>
        obtain ⟨job, hfind, hheld, rfl⟩ := complete_written hcomplete
        obtain ⟨hjob, rfl⟩ := Keyed.mem_of_find hfind
        have hprocessing := (heldBy_iff.mp hheld).1.2
        have hfirst := (h.rows job hjob).unwritten (fun hfinished => hfinished.not_processing hprocessing)
        exact h.record (.written job.jobId lease now) (withResult digest result) (fun _ => rfl) _ hfind
          (rowSound_of_finished (h.rows job hjob).attempts (finished_nextStatus job))
          ⟨⟨(h.rows job hjob).lease hheld, hfirst⟩, h.writes⟩
      next => exact h
  | fail jobId lease error now =>
      unfold jobStep
      dsimp only
      split
      next jobs hfail =>
        obtain ⟨job, hfind, hprocessing, rfl⟩ := fail_ok hfail
        obtain ⟨hjob, rfl⟩ := Keyed.mem_of_find hfind
        exact h.record (.released job.jobId) (withFailure error now) (fun _ => rfl) _ hfind
          (rowSound_withFailure (h.rows job hjob) hprocessing error now) h.writes
      next => exact h
  | delivered jobId =>
      have hnone : ∀ event ∈ ([] : List JobEvent), event.jobId = jobId := fun _ hevent => absurd hevent List.not_mem_nil
      refine h.update (fun job => ?_) hnone _ (fun job hjob hid => ?_) h.writes (Or.inl rfl)
      · split
        next => rfl
        next => rfl
      · exact rowSound_delivered (hid ▸ h.rows job hjob)
  | retryJob jobId =>
      refine h.requeue jobId (fun job => ?_) (fun job hfailed => ?_) (fun job history hother hrow => ?_)
      · split
        next => rfl
        next => rfl
      · rw [if_pos hfailed]
        exact ⟨rfl, rfl⟩
      · rw [if_neg hother]
        exact hrow
  | retryFilter runId =>
      unfold jobStep
      dsimp only
      rw [retryFilterJob_eq]
      rcases filterJobOf runId world.jobs with _ | filter
      · exact h
      · refine h.requeue filter.jobId (fun job => ?_) (fun job hfailed => ?_) (fun job history hother hrow => ?_)
        · split
          next => rfl
          next => rfl
        · rw [if_pos hfailed]
          exact ⟨rfl, rfl⟩
        · rw [if_neg hother]
          exact hrow
  | requestSingleNote fresh revise =>
      unfold jobStep
      dsimp only
      rw [← restartEvents_insertJob fresh world.jobs]
      refine (h.insert fresh).requeue fresh.jobId (fun job => ?_) (fun job hfailed => ?_)
        (fun job history hother hrow => rowSound_asRequested hrow hother _ revise)
      · unfold asRequested
        dsimp only
        split
        next => rfl
        next =>
          split
          next => rfl
          next => rfl
      · unfold asRequested
        dsimp only
        rw [if_pos hfailed]
        exact ⟨rfl, rfl⟩

/-! ## The bound on attempts -/

/-- No job has been claimed more than five times since it was queued. -/
def AttemptsBounded (jobs : List (Job π ρ δ)) : Prop := ∀ job ∈ jobs, job.attempts ≤ maxAttempts

theorem AttemptsBounded.update {jobs : List (Job π ρ δ)} (h : AttemptsBounded jobs) {change : Job π ρ δ → Job π ρ δ}
    (hchange : ∀ job ∈ jobs, job.jobId = jobId → (change job).attempts ≤ maxAttempts) :
    AttemptsBounded (Keyed.update Job.jobId jobId change jobs) := by
  intro job hjob
  rcases Keyed.mem_update.mp hjob with ⟨old, hold, hid, rfl⟩ | ⟨hold, -⟩
  · exact hchange old hold hid
  · exact h job hold

theorem AttemptsBounded.insert {jobs : List (Job π ρ δ)} (h : AttemptsBounded jobs) (fresh : NewJob π ρ) :
    AttemptsBounded (insertJob fresh jobs) := by
  unfold insertJob
  split
  next =>
    intro job hjob
    rcases List.mem_append.mp hjob with hold | hlast
    · exact h job hold
    · rw [List.mem_singleton.mp hlast]
      exact Nat.zero_le 5
  next => exact h

theorem AttemptsBounded.keep {jobs : List (Job π ρ δ)} (h : AttemptsBounded jobs) (jobId : String)
    {change : Job π ρ δ → Job π ρ δ} (hchange : ∀ job, (change job).attempts ≤ job.attempts) :
    AttemptsBounded (Keyed.update Job.jobId jobId change jobs) :=
  h.update (fun job hjob _ => (hchange job).trans (h job hjob))

theorem attempts_of_claimFits (h : JobsSound world) {worker lane : String} {known : Lane} {now : Timestamp}
    (hknown : parseLane lane = some known) (hselect : selectJob known now world.jobs = some job)
    (hfits : ClaimFits world (.claim worker lane now)) : job.attempts < maxAttempts := by
  obtain ⟨hjob, hclaimable⟩ := selectJob_spec hselect
  by_cases hprocessing : job.status = .processing
  · exact hfits known hknown job hjob hclaimable (fun _ => selectJob_first hselect) hprocessing
  · unfold claimable at hclaimable
    rw [Bool.and_eq_true, Bool.or_eq_true, Bool.and_eq_true, decide_eq_true_iff, decide_eq_true_iff] at hclaimable
    rcases hclaimable.2 with ⟨hpending, -⟩ | ⟨hstatus, -⟩
    · exact (h.rows job hjob).waiting hpending
    · exact absurd hstatus hprocessing

theorem attemptsBounded_step [DecidableEq δ] (digest : ρ → δ) (refuses : Option (Job π ρ δ) → ρ → Option String)
    (op : JobOp π ρ) (h : JobsSound world) (hbound : AttemptsBounded world.jobs) (hfits : ClaimFits world op) :
    AttemptsBounded (jobStep digest refuses op world).jobs := by
  cases op with
  | insert fresh => exact hbound.insert fresh
  | claim worker lane now =>
      unfold jobStep
      dsimp only
      split
      next job jobs hclaim =>
        obtain ⟨known, hknown, hselect, rfl⟩ := claim_taken hclaim
        refine hbound.update (fun other hother hid => ?_)
        obtain rfl := eq_of_find h (Keyed.find_of_mem h.keys (selectJob_spec hselect).1) hother hid
        exact attempts_of_claimFits h hknown hselect hfits
      next => exact hbound
  | heartbeat jobId lease now =>
      unfold jobStep
      dsimp only
      split
      next jobs hheartbeat =>
        obtain ⟨-, -, -, rfl⟩ := heartbeat_ok hheartbeat
        exact hbound.keep jobId (fun _ => le_refl _)
      next => exact hbound
  | complete jobId lease result now =>
      unfold jobStep
      dsimp only
      split
      next jobs hcomplete =>
        obtain ⟨-, -, -, rfl⟩ := complete_written hcomplete
        exact hbound.keep jobId (fun _ => le_refl _)
      next => exact hbound
  | fail jobId lease error now =>
      unfold jobStep
      dsimp only
      split
      next jobs hfail =>
        obtain ⟨-, -, -, rfl⟩ := fail_ok hfail
        exact hbound.keep jobId (fun _ => le_refl _)
      next => exact hbound
  | delivered jobId =>
      refine hbound.keep jobId (fun job => ?_)
      split
      next => exact le_refl _
      next => exact le_refl _
  | retryJob jobId =>
      refine hbound.keep jobId (fun job => ?_)
      split
      next => exact Nat.zero_le _
      next => exact le_refl _
  | retryFilter runId =>
      unfold jobStep
      dsimp only
      rw [retryFilterJob_eq]
      rcases filterJobOf runId world.jobs with _ | filter
      · exact hbound
      · refine hbound.keep filter.jobId (fun job => ?_)
        split
        next => exact Nat.zero_le _
        next => exact le_refl _
  | requestSingleNote fresh revise =>
      refine (hbound.insert fresh).keep fresh.jobId (fun job => ?_)
      unfold asRequested
      dsimp only
      split
      next => exact Nat.zero_le _
      next =>
        split
        next => exact le_refl _
        next => exact le_refl _

/-! ## Finished jobs -/

theorem finished_update {jobs : List (Job π ρ δ)} (place : String) (change : Job π ρ δ → Job π ρ δ)
    (hkey : ∀ job, (change job).jobId = job.jobId)
    (hchange : ∀ job ∈ jobs, job.jobId = place → Finished job.status → Finished (change job).status)
    (hjob : job ∈ jobs) (hfinished : Finished job.status) :
    ∃ after ∈ Keyed.update Job.jobId place change jobs, after.jobId = job.jobId ∧ Finished after.status := by
  by_cases hid : job.jobId = place
  · exact ⟨change job, Keyed.mem_update.mpr (Or.inl ⟨job, hjob, hid, rfl⟩), hkey job, hchange job hjob hid hfinished⟩
  · exact ⟨job, Keyed.mem_update.mpr (Or.inr ⟨hjob, hid⟩), rfl, hfinished⟩

theorem mem_insertJob (fresh : NewJob π ρ) {jobs : List (Job π ρ δ)} (hjob : job ∈ jobs) : job ∈ insertJob fresh jobs := by
  unfold insertJob
  split
  next => exact List.mem_append_left _ hjob
  next => exact hjob

theorem finished_step [DecidableEq δ] (digest : ρ → δ) (refuses : Option (Job π ρ δ) → ρ → Option String)
    (op : JobOp π ρ) (h : JobsSound world) (hjob : job ∈ world.jobs) (hfinished : Finished job.status) :
    ∃ after ∈ (jobStep digest refuses op world).jobs, after.jobId = job.jobId ∧ Finished after.status := by
  have hstay : ∃ after ∈ world.jobs, after.jobId = job.jobId ∧ Finished after.status := ⟨job, hjob, rfl, hfinished⟩
  have hfailed : ∀ job : Job π ρ δ, Finished job.status → job.status ≠ .failed := by
    intro job hfinished hfailed
    rw [hfailed] at hfinished
    rcases hfinished with hstatus | hstatus | hstatus
    · exact absurd hstatus (by simp)
    · exact absurd hstatus (by simp)
    · exact absurd hstatus (by simp)
  cases op with
  | insert fresh => exact ⟨job, mem_insertJob fresh hjob, rfl, hfinished⟩
  | claim worker lane now =>
      unfold jobStep
      dsimp only
      split
      next taken jobs hclaim =>
        obtain ⟨known, -, hselect, rfl⟩ := claim_taken hclaim
        obtain ⟨htaken, hclaimable⟩ := selectJob_spec hselect
        refine finished_update taken.jobId (underLease worker world.nextLease now) (fun _ => rfl) (fun other hother hid hdone => ?_) hjob hfinished
        rw [eq_of_find h (Keyed.find_of_mem h.keys htaken) hother hid] at hdone
        exact absurd hdone (claimable_open hclaimable)
      next => exact hstay
  | heartbeat jobId lease now =>
      unfold jobStep
      dsimp only
      split
      next jobs hheartbeat =>
        obtain ⟨-, -, -, rfl⟩ := heartbeat_ok hheartbeat
        exact finished_update jobId (fun job => { job with leaseUntil := some (now + leaseSpan) }) (fun _ => rfl)
          (fun _ _ _ hdone => hdone) hjob hfinished
      next => exact hstay
  | complete jobId lease result now =>
      unfold jobStep
      dsimp only
      split
      next jobs hcomplete =>
        obtain ⟨-, -, -, rfl⟩ := complete_written hcomplete
        exact finished_update jobId (withResult digest result) (fun _ => rfl) (fun other _ _ _ => finished_nextStatus other)
          hjob hfinished
      next => exact hstay
  | fail jobId lease error now =>
      unfold jobStep
      dsimp only
      split
      next jobs hfail =>
        obtain ⟨taken, hfind, hprocessing, rfl⟩ := fail_ok hfail
        refine finished_update jobId (withFailure error now) (fun _ => rfl) (fun other hother hid hdone => ?_) hjob hfinished
        rw [eq_of_find h hfind hother hid] at hdone
        exact absurd hprocessing hdone.not_processing
      next => exact hstay
  | delivered jobId =>
      refine finished_update jobId _ (fun job => ?_) (fun other _ _ hdone => ?_) hjob hfinished
      · split
        next => rfl
        next => rfl
      · split
        next => exact Or.inr (Or.inr rfl)
        next => exact hdone
  | retryJob jobId =>
      refine finished_update jobId _ (fun job => ?_) (fun other _ _ hdone => ?_) hjob hfinished
      · split
        next => rfl
        next => rfl
      · rw [if_neg (hfailed other hdone)]
        exact hdone
  | retryFilter runId =>
      unfold jobStep
      dsimp only
      rw [retryFilterJob_eq]
      rcases filterJobOf runId world.jobs with _ | filter
      · exact hstay
      · refine finished_update filter.jobId _ (fun job => ?_) (fun other _ _ hdone => ?_) hjob hfinished
        · split
          next => rfl
          next => rfl
        · rw [if_neg (hfailed other hdone)]
          exact hdone
  | requestSingleNote fresh revise =>
      refine finished_update fresh.jobId _ (fun job => ?_) (fun other _ _ hdone => ?_) (mem_insertJob fresh hjob) hfinished
      · unfold asRequested
        dsimp only
        split
        next => rfl
        next =>
          split
          next => rfl
          next => rfl
      · unfold asRequested
        dsimp only
        rw [if_neg (hfailed other hdone)]
        split
        next => exact Or.inl rfl
        next => exact hdone

/-! ## Runs -/

theorem jobsSound_start : JobsSound ({} : JobWorld π ρ δ) :=
  ⟨List.nodup_nil, fun _ hjob => absurd hjob List.not_mem_nil, fun _ _ => rfl, trivial⟩

theorem jobsSound_afterwards [DecidableEq δ] (digest : ρ → δ) (refuses : Option (Job π ρ δ) → ρ → Option String)
    (ops : List (JobOp π ρ)) : JobsSound (Driven.afterwards (jobStep digest refuses) ops ({} : JobWorld π ρ δ)) := by
  induction ops using List.reverseRecOn with
  | nil => exact jobsSound_start
  | append_singleton ops op ih =>
      rw [Driven.afterwards_concat]
      exact jobsSound_step digest refuses op ih

theorem claimsSince_le (h : JobsSound world) (hbound : AttemptsBounded world.jobs) (jobId : String) :
    claimsSince (historyOf jobId world.log) ≤ maxAttempts := by
  rcases hfind : Keyed.find Job.jobId jobId world.jobs with _ | job
  · rw [h.unknown jobId hfind]
    exact Nat.zero_le 5
  · obtain ⟨hjob, rfl⟩ := Keyed.mem_of_find hfind
    rw [← (h.rows job hjob).attempts]
    exact hbound job hjob

structure JobsBounded (world : JobWorld π ρ δ) : Prop where
  sound : JobsSound world
  attempts : AttemptsBounded world.jobs

theorem jobsBounded_start : JobsBounded ({} : JobWorld π ρ δ) :=
  ⟨jobsSound_start, fun _ hjob => absurd hjob List.not_mem_nil⟩

theorem jobsBounded_afterwards [DecidableEq δ] (digest : ρ → δ) (refuses : Option (Job π ρ δ) → ρ → Option String)
    {ops : List (JobOp π ρ)} (h : Driven.Follows (jobStep digest refuses) ClaimFits ops ({} : JobWorld π ρ δ)) :
    JobsBounded (Driven.afterwards (jobStep digest refuses) ops ({} : JobWorld π ρ δ)) := by
  have hrun := Driven.run_afterwards ops ({} : JobWorld π ρ δ) h
  refine hrun.keeps jobsBounded_start (fun world op hinv hfits => ?_)
  exact ⟨jobsSound_step digest refuses op hinv.sound, attemptsBounded_step digest refuses op hinv.sound hinv.attempts hfits⟩

/-- **The table follows its history**: in every run a job has one row, whose attempts are its claims since the last retry; a
    job that is worked on has the lease that was given out last, and one without a result has not been written since. -/
theorem jobs_follow_history [DecidableEq δ] (digest : ρ → δ) (refuses : Option (Job π ρ δ) → ρ → Option String)
    (ops : List (JobOp π ρ)) :
    let world := Driven.afterwards (jobStep digest refuses) ops ({} : JobWorld π ρ δ)
    (world.jobs.map Job.jobId).Nodup ∧ ∀ job ∈ world.jobs, job.attempts = claimsSince (historyOf job.jobId world.log) ∧
      (job.status = .processing → ∃ lease expiry, job.leaseToken = some lease ∧ job.leaseUntil = some expiry ∧
        heldLease (historyOf job.jobId world.log) = some (lease, expiry)) ∧
      (¬ Finished job.status → writesSince (historyOf job.jobId world.log) = 0) := by
  intro world
  have hsound : JobsSound world := jobsSound_afterwards digest refuses ops
  exact ⟨hsound.keys, fun job hjob => ⟨(hsound.rows job hjob).attempts, (hsound.rows job hjob).held, (hsound.rows job hjob).unwritten⟩⟩

/-- The same job is claimed again each time its worker has died. -/
def deadWorkers (claims : ℕ) : List (JobOp Unit String) :=
  .insert { jobId := "xhs-ai-1", payload := (), created := 0 } ::
    (List.range claims).map (fun done => .claim "mac" "" ((done * 200 : ℕ) * 1000000))

end Steps

end TradingHarness.Xhs
