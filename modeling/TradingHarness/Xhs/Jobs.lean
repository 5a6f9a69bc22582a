import Mathlib.Data.List.Sort
import TradingHarness.Library.Keyed
import TradingHarness.Market.Reality

set_option autoImplicit false

/-! # Jobs

The table of AI jobs of `store.py`: workers claim a job under a lease, extend the lease, and complete or fail the job;
a ready job is delivered, a failed one may be retried. Every function is one transaction at one time. -/

namespace TradingHarness.Xhs

/-! ## Rows -/

inductive JobStatus
  | pending
  | processing
  | ready
  | completed
  | sent
  | failed
  deriving DecidableEq

inductive JobType
  | summary
  | singleNoteAnalysis
  | dailyDigest
  | classifyNotes
  | classifyRecommendations
  | classifyProfiles
  | manualMessage
  deriving DecidableEq

/-- A row of `jobs`. `deliverToFeishu` is the field of the payload that decides whether a result is delivered. -/
structure Job (π ρ δ : Type) where
  jobId : String
  jobType : JobType := .summary
  status : JobStatus
  payload : π
  deliverToFeishu : Bool := false
  created : Timestamp
  available : Timestamp := 0
  attempts : ℕ := 0
  leaseToken : Option ℕ := none
  leaseUntil : Option Timestamp := none
  worker : Option String := none
  result : Option ρ := none
  resultHash : Option δ := none
  lastError : Option String := none
  runId : Option String := none
  parentJobId : Option String := none

/-- The types whose results are decisions. -/
def JobType.isClassify : JobType → Bool
  | .classifyNotes => true
  | .classifyRecommendations => true
  | .classifyProfiles => true
  | _ => false

/-- 180 seconds. -/
def leaseSpan : ℤ := 180 * 1000000

section Rows

variable {π ρ δ : Type}

/-! ## Claims -/

inductive Lane
  | every
  | interactive
  | batch

def parseLane (lane : String) : Option Lane :=
  if lane == "" then some .every
  else if lane == "interactive" then some .interactive
  else if lane == "batch" then some .batch
  else none

def inLane (lane : Lane) (job : Job π ρ δ) : Bool :=
  match lane with
  | .every => true
  | .interactive => decide (job.jobType = .singleNoteAnalysis)
  | .batch => decide (job.jobType ≠ .singleNoteAnalysis)

/-- The lease has ended before `now`. -/
def leaseExpired (now : Timestamp) (job : Job π ρ δ) : Bool := job.leaseUntil.any (fun expiry => decide (expiry < now))

def claimable (lane : Lane) (now : Timestamp) (job : Job π ρ δ) : Bool :=
  inLane lane job &&
    (decide (job.status = .pending ∧ job.available ≤ now) || (decide (job.status = .processing) && leaseExpired now job))

/-- Single notes first, then by creation. -/
def claimRank (job : Job π ρ δ) : ℕ := if job.jobType = .singleNoteAnalysis then 0 else 1

def ClaimedBefore (job other : Job π ρ δ) : Prop :=
  claimRank job < claimRank other ∨ (claimRank job = claimRank other ∧ job.created ≤ other.created)

instance decidableClaimedBefore (job other : Job π ρ δ) : Decidable (ClaimedBefore job other) :=
  inferInstanceAs (Decidable (_ ∨ _))

/-- The job that a claim takes. -/
def selectJob (lane : Lane) (now : Timestamp) (jobs : List (Job π ρ δ)) : Option (Job π ρ δ) :=
  ((jobs.filter (claimable lane now)).insertionSort ClaimedBefore).head?

def underLease (worker : String) (lease : ℕ) (now : Timestamp) (job : Job π ρ δ) : Job π ρ δ :=
  { job with
    status := .processing
    worker := some worker
    leaseToken := some lease
    leaseUntil := some (now + leaseSpan)
    attempts := job.attempts + 1 }

/-- `Store.claim`, with the new lease token. -/
def claim (worker lane : String) (lease : ℕ) (now : Timestamp) (jobs : List (Job π ρ δ)) :
    Except String (Option (Job π ρ δ) × List (Job π ρ δ)) :=
  match parseLane lane with
  | none => .error "invalid_worker_lane"
  | some lane =>
    match selectJob lane now jobs with
    | none => .ok (none, jobs)
    | some job => .ok (some job, Keyed.update Job.jobId job.jobId (underLease worker lease now) jobs)

/-! ## Reports -/

/-- The job is in work under the lease, which has not expired. -/
def heldBy (lease : ℕ) (now : Timestamp) (job : Job π ρ δ) : Bool :=
  decide (job.leaseToken = some lease ∧ job.status = .processing) && job.leaseUntil.any (fun expiry => decide (now ≤ expiry))

def heartbeat (jobId : String) (lease : ℕ) (now : Timestamp) (jobs : List (Job π ρ δ)) :
    Except String (List (Job π ρ δ)) :=
  match Keyed.find Job.jobId jobId jobs with
  | none => .error "lease_lost"
  | some job =>
    if heldBy lease now job then
      .ok (Keyed.update Job.jobId jobId (fun job => { job with leaseUntil := some (now + leaseSpan) }) jobs)
    else .error "lease_lost"

/-- Single notes and digests are delivered where that was asked for, other summaries always, decisions never. -/
def nextStatus (job : Job π ρ δ) : JobStatus :=
  match job.jobType with
  | .singleNoteAnalysis => if job.deliverToFeishu then .ready else .completed
  | .dailyDigest => if job.deliverToFeishu then .ready else .completed
  | .classifyNotes => .completed
  | .classifyRecommendations => .completed
  | .classifyProfiles => .completed
  | _ => .ready

def withResult (digest : ρ → δ) (result : ρ) (job : Job π ρ δ) : Job π ρ δ :=
  { job with
    status := nextStatus job
    result := some result
    resultHash := some (digest result)
    lastError := none }

inductive Completed
  | duplicate
  | written

/-- `Store.complete` as it concerns the job. `refuses` is what is wrong with a result for the job: with a summary before
    the lease is looked at, with decisions after. -/
def complete [DecidableEq δ] (digest : ρ → δ) (refuses : Option (Job π ρ δ) → ρ → Option String) (jobId : String)
    (lease : ℕ) (result : ρ) (now : Timestamp) (jobs : List (Job π ρ δ)) :
    Except String (Completed × List (Job π ρ δ)) :=
  let written := Keyed.update Job.jobId jobId (withResult digest result) jobs
  match Keyed.find Job.jobId jobId jobs with
  | none => .error ((refuses none result).getD "lease_lost_or_result_conflict")
  | some job =>
    if job.jobType.isClassify then
      if !heldBy lease now job then .error "lease_lost_or_result_conflict"
      else
        match refuses (some job) result with
        | some error => .error error
        | none => .ok (.written, written)
    else
      match refuses (some job) result with
      | some error => .error error
      | none =>
        if job.leaseToken = some lease ∧ job.resultHash = some (digest result) then .ok (.duplicate, jobs)
        else if !heldBy lease now job then .error "lease_lost_or_result_conflict"
        else .ok (.written, written)

/-- `min(3600, 60 * 2**min(attempts, 6))` seconds. -/
def retryDelay (attempts : ℕ) : ℤ := ((min 3600 (60 * Nat.pow 2 (min attempts 6)) : ℕ) : ℤ) * 1000000

/-- The attempts after which a failure is final. -/
def maxAttempts : ℕ := 5

def withFailure (error : String) (now : Timestamp) (job : Job π ρ δ) : Job π ρ δ :=
  { job with
    status := if maxAttempts ≤ job.attempts then .failed else .pending
    available := now + retryDelay job.attempts
    lastError := some error }

/-- `Store.fail` as it concerns the job: the lease may have expired. -/
def fail (jobId : String) (lease : ℕ) (error : String) (now : Timestamp) (jobs : List (Job π ρ δ)) :
    Except String (List (Job π ρ δ)) :=
  match Keyed.find Job.jobId jobId jobs with
  | none => .error "lease_lost"
  | some job =>
    if job.status = .processing ∧ job.leaseToken = some lease then
      .ok (Keyed.update Job.jobId jobId (withFailure error now) jobs)
    else .error "lease_lost"

/-! ## Deliveries, retries and requests -/

/-- `Store.delivered` as it concerns the job. -/
def delivered (jobId : String) (jobs : List (Job π ρ δ)) : List (Job π ρ δ) :=
  Keyed.update Job.jobId jobId (fun job =>
    if job.status = .ready then { job with status := .sent, lastError := none } else job) jobs

def retryJob (jobId : String) (jobs : List (Job π ρ δ)) : List (Job π ρ δ) :=
  Keyed.update Job.jobId jobId (fun job =>
    if job.status = .failed then { job with status := .pending, available := 0, attempts := 0 } else job) jobs

/-- A job that is queued again without its lease. -/
def restarted (job : Job π ρ δ) : Job π ρ δ :=
  { job with
    status := .pending
    available := 0
    attempts := 0
    leaseToken := none
    leaseUntil := none
    worker := none
    lastError := none }

/-- The newest filter job of a run. -/
def filterJobOf (runId : String) (jobs : List (Job π ρ δ)) : Option (Job π ρ δ) :=
  ((jobs.filter (fun job => decide (job.runId = some runId ∧ job.jobType = .classifyRecommendations))).insertionSort
    (fun job other => other.created ≤ job.created)).head?

/-- `Store.retry_recommendation_filter` as it concerns the job. -/
def retryFilterJob (runId : String) (jobs : List (Job π ρ δ)) : List (Job π ρ δ) :=
  match filterJobOf runId jobs with
  | none => jobs
  | some filter => Keyed.update Job.jobId filter.jobId (fun job => if job.status = .failed then restarted job else job) jobs

/-- What a new job is given. A message is inserted with its text and is ready at once. -/
structure NewJob (π ρ : Type) where
  jobId : String
  jobType : JobType := .summary
  payload : π
  deliverToFeishu : Bool := false
  created : Timestamp
  message : Option ρ := none
  runId : Option String := none
  parentJobId : Option String := none

def NewJob.row (fresh : NewJob π ρ) : Job π ρ δ where
  jobId := fresh.jobId
  jobType := fresh.jobType
  status := if fresh.message.isSome then .ready else .pending
  payload := fresh.payload
  deliverToFeishu := fresh.deliverToFeishu
  created := fresh.created
  result := fresh.message
  runId := fresh.runId
  parentJobId := fresh.parentJobId

/-- `INSERT OR IGNORE INTO jobs` -/
def insertJob (fresh : NewJob π ρ) (jobs : List (Job π ρ δ)) : List (Job π ρ δ) :=
  match Keyed.find Job.jobId fresh.jobId jobs with
  | none => jobs ++ [fresh.row]
  | some _ => jobs

/-- What a request for a single note makes of its job: a failed one is queued again, and a completed one is delivered if
    that is asked for now or was before. `revise` is what a live fetch makes of the payload. -/
def asRequested (deliver : Bool) (revise : π → π) (job : Job π ρ δ) : Job π ρ δ :=
  let revised := { job with payload := revise job.payload, deliverToFeishu := deliver || job.deliverToFeishu }
  if job.status = .failed then restarted revised
  else if job.status = .completed ∧ (deliver || job.deliverToFeishu) = true then
    { revised with status := .ready, lastError := none }
  else revised

/-- `Store.enqueue_single_note` as it concerns the job. -/
def requestSingleNote (fresh : NewJob π ρ) (revise : π → π) (jobs : List (Job π ρ δ)) : List (Job π ρ δ) :=
  Keyed.update Job.jobId fresh.jobId (asRequested fresh.deliverToFeishu revise) (insertJob fresh jobs)

end Rows

end TradingHarness.Xhs
