import Mathlib.Data.List.Sort
import TradingHarness.Library.Keyed
import TradingHarness.Library.Leased

set_option autoImplicit false

/-! # The leased outboxes

The ingestion delivery outbox, the Baidu archive queue and the paper-kb delivery table of `ledger.mjs`. Each
statement is one transaction. A claim asks for the lease, an outcome addresses its row by id alone. -/

namespace TradingHarness

/-! ## The two job queues -/

inductive JobStatus
  | queued
  | processing
  | completed
  | retryableFailed
  | failed
  deriving DecidableEq

/-- A row of `ingestion_delivery_outbox` or `baidu_pan_archive_jobs`: its id, the `job_id` or `archive_key` that
    is unique in the table, and what a completion records in it. Times are in microseconds. -/
structure JobRow (ρ : Type) where
  rowId : ℕ
  place : List Char
  status : JobStatus := .queued
  attemptCount : ℕ := 0
  availableAt : ℤ
  leaseOwner : Option (List Char) := none
  leaseExpiresAt : Option ℤ := none
  lastError : Option (List Char) := none
  receipt : ρ
  createdAt : ℤ
  updatedAt : ℤ

/-- What `completeBaiduPanArchive` records. -/
structure RemoteFile where
  remotePath : Option (List Char) := none
  remoteFsId : Option (List Char) := none

/-- `count * interval '1 second'` -/
def interval (count : ℤ) : ℤ := count * 1000000

def deliveryRetryDelaySeconds (attemptCount : ℕ) : ℕ := min 300 (10 * Nat.pow 2 (min (max 1 attemptCount - 1) 5))

/-- `Math.max(low, Math.min(high, Number(value) || fallback))` -/
def boundedOr (low high fallback value : ℤ) : ℤ := max low (min high (if value = 0 then fallback else value))

section Queue

variable {ρ : Type}

def findJob (rowId : ℕ) (rows : List (JobRow ρ)) : Option (JobRow ρ) := Keyed.find JobRow.rowId rowId rows

/-- The row of a `job_id` or an `archive_key`. -/
def findPlace (place : List Char) (rows : List (JobRow ρ)) : Option (JobRow ρ) :=
  rows.find? (fun row => decide (row.place = place))

def updateJob (rowId : ℕ) (change : JobRow ρ → JobRow ρ) (rows : List (JobRow ρ)) : List (JobRow ρ) :=
  Keyed.update JobRow.rowId rowId change rows

def claimableJob (now : ℤ) (row : JobRow ρ) : Bool :=
  ((row.status == .queued || row.status == .retryableFailed) && decide (row.availableAt ≤ now)) ||
    (row.status == .processing && row.leaseExpiresAt.any (fun expiry => decide (expiry < now)))

/-- `ORDER BY rank, available_at, created_at` -/
def JobBefore (rank : List Char → ℕ) (first second : JobRow ρ) : Prop :=
  rank first.place < rank second.place ∨ (rank first.place = rank second.place ∧
    (first.availableAt < second.availableAt ∨
      (first.availableAt = second.availableAt ∧ first.createdAt ≤ second.createdAt)))

instance (rank : List Char → ℕ) (first second : JobRow ρ) : Decidable (JobBefore rank first second) :=
  inferInstanceAs (Decidable (_ ∨ _))

/-- The candidates of a claim: `FOR UPDATE SKIP LOCKED` passes over the rows that other transactions have
    locked. -/
def claimCandidates (now : ℤ) (rank : List Char → ℕ) (locked : List ℕ) (limit : ℤ)
    (rows : List (JobRow ρ)) : List (JobRow ρ) :=
  ((((rows.filter (claimableJob now)).insertionSort (JobBefore rank)).filter
    (fun row => decide (row.rowId ∉ locked))).take limit.toNat)

def claimJob (now : ℤ) (owner : List Char) (lease : ℤ) (row : JobRow ρ) : JobRow ρ :=
  { row with
    status := .processing
    attemptCount := row.attemptCount + 1
    leaseOwner := some owner
    leaseExpiresAt := some (now + interval lease)
    updatedAt := now }

def claimJobs (now : ℤ) (owner : List Char) (lease : ℤ) (claimed : List ℕ) (rows : List (JobRow ρ)) :
    List (JobRow ρ) :=
  rows.map (fun row => if row.rowId ∈ claimed then claimJob now owner lease row else row)

def completeJob (now : ℤ) (receipt : ρ) (row : JobRow ρ) : JobRow ρ :=
  { row with
    status := .completed
    receipt := receipt
    leaseOwner := none
    leaseExpiresAt := none
    lastError := none
    updatedAt := now }

/-- `seen` is the attempt count that an earlier `SELECT` has returned. -/
def failJob (now : ℤ) (seen : ℕ) (retryable : Bool) (error : List Char) (row : JobRow ρ) : JobRow ρ :=
  { row with
    status := if retryable then .retryableFailed else .failed
    availableAt := if retryable then now + interval (deliveryRetryDelaySeconds seen) else row.availableAt
    leaseOwner := none
    leaseExpiresAt := none
    lastError := some (error.take 1000)
    updatedAt := now }

/-- A row that is inserted. An id that the table has is refused. -/
def insertJob (now : ℤ) (place : List Char) (rowId : ℕ) (blank : ρ) (rows : List (JobRow ρ)) :
    List (JobRow ρ) :=
  if (findJob rowId rows).isSome then rows
  else rows ++ [{ rowId := rowId, place := place, availableAt := now, receipt := blank, createdAt := now,
                  updatedAt := now }]

def requeueJob (now : ℤ) (row : JobRow ρ) : JobRow ρ :=
  { row with
    status := .queued
    availableAt := now
    leaseOwner := none
    leaseExpiresAt := none
    lastError := none
    updatedAt := now }

/-! ## The system of a queue -/

/-- The table, the clock, and what the workers have claimed. -/
structure QueueWorld (ρ : Type) where
  rows : List (JobRow ρ) := []
  now : ℤ := 0
  grants : List (ℕ × Leased.Grant) := []

/-- The calls. `worker` is who calls: the statements of an outcome do not ask for it. -/
inductive QueueOp (ρ : Type)
  | wait (duration : ℕ)
  | enqueue (place : List Char) (rowId : ℕ)
  | claim (worker : ℕ) (owner : List Char) (limit leaseSeconds : ℤ) (rank : List Char → ℕ) (locked : List ℕ)
  | complete (worker rowId : ℕ) (receipt : ρ)
  | fail (worker rowId seen : ℕ) (retryable : Bool) (error : List Char)

/-- What differs between the two queues: what is recorded before a completion, the rows that an enqueue of a
    place takes up again, and how many rows a claim takes that does not say. -/
structure Queue (ρ : Type) where
  blank : ρ
  takesUp : Bool
  defaultLimit : ℤ

variable (queue : Queue ρ) (op : QueueOp ρ) (world : QueueWorld ρ)

/-- `enqueueDelivery` queues the row of a job again, `enqueueBaiduPanArchive` leaves it. -/
def enqueueJob (now : ℤ) (place : List Char) (rowId : ℕ) (rows : List (JobRow ρ)) :
    List (JobRow ρ) :=
  match findPlace place rows with
  | some row => if queue.takesUp then updateJob row.rowId (requeueJob now) rows else rows
  | none => insertJob now place rowId queue.blank rows

def claimedJobs (limit : ℤ) (rank : List Char → ℕ)
    (locked : List ℕ) : List ℕ :=
  (claimCandidates world.now rank locked (boundedOr 1 20 queue.defaultLimit limit) world.rows).map JobRow.rowId

/-- The row that an enqueue takes up again. The leases of it are void. -/
def requeuedJob (place : List Char) (rows : List (JobRow ρ)) : Option ℕ :=
  if queue.takesUp then (findPlace place rows).map JobRow.rowId else none

def queueStep : QueueWorld ρ :=
  match op with
  | .wait duration => { world with now := world.now + duration }
  | .enqueue place rowId =>
    { world with
      rows := enqueueJob queue world.now place rowId world.rows
      grants := world.grants.filter (fun grant => decide (requeuedJob queue place world.rows ≠ some grant.1)) }
  | .claim worker owner limit leaseSeconds rank locked =>
    let claimed := claimedJobs queue world limit rank locked
    let lease := boundedOr 30 1800 300 leaseSeconds
    { world with
      rows := claimJobs world.now owner lease claimed world.rows
      grants := claimed.map (fun rowId => (rowId, ⟨worker, world.now + interval lease⟩)) ++ world.grants }
  | .complete worker rowId receipt =>
    { world with
      rows := updateJob rowId (completeJob world.now receipt) world.rows
      grants := Leased.without worker rowId world.grants }
  | .fail worker rowId seen retryable error =>
    { world with
      rows := updateJob rowId (failJob world.now seen retryable error) world.rows
      grants := Leased.without worker rowId world.grants }

/-- `ingestion_delivery_outbox` -/
def deliveryOutbox : Queue Unit := { blank := (), takesUp := true, defaultLimit := 5 }

/-- `baidu_pan_archive_jobs` -/
def archiveQueue : Queue RemoteFile := { blank := {}, takesUp := false, defaultLimit := 4 }

/-- What a row shows of its item. -/
def jobItem (row : JobRow ρ) : Leased.Item JobStatus where
  settled := if row.status = .completed then some .completed else none
  heldUntil := if row.status = .processing then row.leaseExpiresAt else none

/-- The queue as a system of leased items. -/
def queueSystem : Leased.System (QueueWorld ρ) (QueueOp ρ) ℕ JobStatus where
  step := queueStep queue
  valid world := (world.rows.map JobRow.rowId).Nodup
  view rowId world :=
    { item := (findJob rowId world.rows).map jobItem
      now := world.now
      grants := Leased.grantsOf rowId world.grants }
  queues rowId world op :=
    match op with
    | .enqueue place _ => requeuedJob queue place world.rows = some rowId
    | _ => False
  handsOut op world :=
    match op with
    | .claim _ _ limit _ rank locked => claimedJobs queue world limit rank locked
    | _ => []

/-- An outcome comes for a row that no other worker has, and a failure for one that is not completed. -/
def ReportsInTime : QueueOp ρ → Prop
  | .complete worker rowId _ => Leased.Timely ((queueSystem queue).view rowId world) worker
  | .fail worker rowId _ _ _ => Leased.Timely ((queueSystem queue).view rowId world) worker ∧
      ¬ Leased.Settled ((queueSystem queue).view rowId world) .completed
  | _ => True

/-! ## Each operation as a step of the items -/

variable {queue : Queue ρ} {world : QueueWorld ρ}

theorem keep_job {queues : Prop} {after : QueueWorld ρ} {rowId : ℕ}
    (hrow : findJob rowId after.rows = findJob rowId world.rows) (hnow : world.now ≤ after.now)
    (hgrants : ∀ grant, (rowId, grant) ∈ after.grants → (rowId, grant) ∈ world.grants) :
    Leased.Step queues ((queueSystem queue).view rowId world) ((queueSystem queue).view rowId after) := by
  refine Leased.Step.keep _ _ ?_ hnow ?_
  · exact congrArg (Option.map jobItem) hrow
  · intro grant hgrant
    exact Leased.mem_grantsOf.mpr (hgrants grant (Leased.mem_grantsOf.mp hgrant))

/-- An outcome is a report on its row, and leaves the others. -/
theorem report_job {queues : Prop} (worker rowId item : ℕ) (change : JobRow ρ → JobRow ρ)
    (hid : ∀ row, (change row).rowId = row.rowId)
    (hchange : ∀ row, findJob rowId world.rows = some row → row.status = .completed →
      (change row).status = .completed)
    (htimely : Leased.Timely ((queueSystem queue).view rowId world) worker) :
    Leased.Step queues ((queueSystem queue).view item world) ((queueSystem queue).view item
      { world with
        rows := updateJob rowId change world.rows
        grants := Leased.without worker rowId world.grants }) := by
  have hself : findJob rowId (updateJob rowId change world.rows) = (findJob rowId world.rows).map change :=
    Keyed.find_update_self change hid
  refine Leased.step_report (fun item => (findJob item world.rows).map jobItem)
    (fun item => (findJob item (updateJob rowId change world.rows)).map jobItem) world.now worker rowId ?_ ?_
    htimely
  · intro hitem
    exact congrArg (Option.map jobItem) (Keyed.find_update_of_ne change hid hitem)
  · intro old state hold hstate
    obtain ⟨row, hrow, rfl⟩ := Option.map_eq_some_iff.mp hold
    unfold jobItem at hstate
    dsimp only at hstate
    split at hstate
    next hcompleted =>
      refine ⟨jobItem (change row), ?_, ?_⟩
      · rw [hself, hrow]
        rfl
      · unfold jobItem
        rw [if_pos (hchange row hrow hcompleted)]
        exact hstate
    next => exact absurd hstate.symm (Option.some_ne_none state)

theorem nodup_updateJob (rowId : ℕ) (change : JobRow ρ → JobRow ρ) (rows : List (JobRow ρ))
    (hid : ∀ row, (change row).rowId = row.rowId) (h : (rows.map JobRow.rowId).Nodup) :
    ((updateJob rowId change rows).map JobRow.rowId).Nodup := by
  unfold updateJob
  rw [Keyed.map_update change JobRow.rowId (fun row _ _ => hid row)]
  exact h

theorem claimable_of_claimed (hvalid : (world.rows.map JobRow.rowId).Nodup) {limit : ℤ}
    {rank : List Char → ℕ} {locked : List ℕ} {rowId : ℕ}
    (h : rowId ∈ claimedJobs queue world limit rank locked) :
    ∃ row, findJob rowId world.rows = some row ∧ claimableJob world.now row = true := by
  obtain ⟨row, hrow, rfl⟩ := List.mem_map.mp h
  have hsorted := (List.mem_filter.mp (List.mem_of_mem_take hrow)).1
  obtain ⟨hmem, hclaimable⟩ := List.mem_filter.mp ((List.mem_insertionSort (JobBefore rank)).mp hsorted)
  exact ⟨row, Keyed.find_of_mem hvalid hmem, hclaimable⟩

theorem free_of_claimable {row : JobRow ρ} (h : claimableJob world.now row = true) :
    (jobItem row).settled = none ∧ ∀ expiry, (jobItem row).heldUntil = some expiry → expiry ≤ world.now := by
  unfold claimableJob at h
  unfold jobItem
  rcases row with ⟨rowId, place, status, attemptCount, availableAt, leaseOwner, leaseExpiresAt, lastError,
    receipt, createdAt, updatedAt⟩
  cases status with
  | processing =>
      refine ⟨rfl, ?_⟩
      rintro expiry hexpiry
      obtain rfl : leaseExpiresAt = some expiry := hexpiry
      have hexpired : expiry < world.now := by simpa using h
      exact le_of_lt hexpired
  | completed => exact absurd h (by simp)
  | queued => exact ⟨rfl, fun expiry hexpiry => absurd hexpiry.symm (Option.some_ne_none expiry)⟩
  | retryableFailed => exact ⟨rfl, fun expiry hexpiry => absurd hexpiry.symm (Option.some_ne_none expiry)⟩
  | failed => exact absurd h (by simp)

theorem find_claimJobs (now : ℤ) (owner : List Char) (lease : ℤ) (claimed : List ℕ) (rowId : ℕ)
    (rows : List (JobRow ρ)) : findJob rowId (claimJobs now owner lease claimed rows)
      = (findJob rowId rows).map (fun row => if row.rowId ∈ claimed then claimJob now owner lease row else row) := by
  refine Keyed.find_map _ (fun row => ?_)
  split <;> rfl

theorem claim_step {queues : Prop} (hvalid : (world.rows.map JobRow.rowId).Nodup) (worker : ℕ)
    (owner : List Char) (limit leaseSeconds : ℤ) (rank : List Char → ℕ) (locked : List ℕ) (item : ℕ) :
    Leased.Step queues ((queueSystem queue).view item world)
      ((queueSystem queue).view item
        (queueStep queue (.claim worker owner limit leaseSeconds rank locked) world)) := by
  by_cases hclaimed : item ∈ claimedJobs queue world limit rank locked
  · obtain ⟨row, hrow, hclaimable⟩ := claimable_of_claimed hvalid hclaimed
    refine Leased.Step.claim _ _ _
      ⟨worker, world.now + interval (boundedOr 30 1800 300 leaseSeconds)⟩ ?_ ?_ rfl rfl ?_
    · intro shown hshown
      obtain ⟨other, hother, rfl⟩ := Option.map_eq_some_iff.mp hshown
      obtain rfl : row = other := Option.some.inj (hrow.symm.trans hother)
      exact free_of_claimable hclaimable
    · change (findJob item (claimJobs world.now owner _ _ world.rows)).map jobItem = _
      obtain ⟨-, rfl⟩ := Keyed.mem_of_find hrow
      rw [find_claimJobs, hrow, Option.map_some, if_pos hclaimed]
      rfl
    · intro grant hgrant
      rcases List.mem_append.mp (Leased.mem_grantsOf.mp hgrant) with hnew | hold
      · obtain ⟨rowId, -, heq⟩ := List.mem_map.mp hnew
        exact Or.inl (congrArg Prod.snd heq).symm
      · exact Or.inr (Leased.mem_grantsOf.mpr hold)
  · refine keep_job ?_ le_rfl ?_
    · change findJob item (claimJobs world.now owner _ _ world.rows) = _
      rw [find_claimJobs]
      rcases hrow : findJob item world.rows with _ | row
      · rfl
      · obtain ⟨-, rfl⟩ := Keyed.mem_of_find hrow
        rw [Option.map_some, if_neg hclaimed]
    · intro grant hgrant
      rcases List.mem_append.mp hgrant with hnew | hold
      · obtain ⟨rowId, hrowId, heq⟩ := List.mem_map.mp hnew
        obtain rfl : rowId = item := congrArg Prod.fst heq
        exact absurd hrowId hclaimed
      · exact hold

/-- An enqueue takes a row up again, inserts one, or does nothing. -/
theorem enqueueJob_cases (queue : Queue ρ) (now : ℤ) (place : List Char) (rowId : ℕ) (rows : List (JobRow ρ)) :
    (∃ found, requeuedJob queue place rows = some found ∧
      enqueueJob queue now place rowId rows = updateJob found (requeueJob now) rows) ∨
    (findJob rowId rows = none ∧ requeuedJob queue place rows = none ∧
      ∃ row, row.rowId = rowId ∧ enqueueJob queue now place rowId rows = rows ++ [row]) ∨
    (requeuedJob queue place rows = none ∧ enqueueJob queue now place rowId rows = rows) := by
  unfold enqueueJob requeuedJob
  rcases findPlace place rows with _ | row
  · have hnone : (if queue.takesUp then (none : Option (JobRow ρ)).map JobRow.rowId else none) = none :=
      ite_self none
    unfold insertJob
    rcases hfind : findJob rowId rows with _ | other
    · exact Or.inr (Or.inl ⟨rfl, hnone, _, rfl, rfl⟩)
    · exact Or.inr (Or.inr ⟨hnone, rfl⟩)
  · rcases queue.takesUp
    · exact Or.inr (Or.inr ⟨rfl, rfl⟩)
    · exact Or.inl ⟨row.rowId, rfl, rfl⟩

theorem enqueue_step (place : List Char) (rowId item : ℕ) :
    Leased.Step ((queueSystem queue).queues item world (.enqueue place rowId))
      ((queueSystem queue).view item world)
      ((queueSystem queue).view item (queueStep queue (.enqueue place rowId) world)) := by
  have hgrants : ∀ grant, (item, grant) ∈ (queueStep queue (.enqueue place rowId) world).grants →
      (item, grant) ∈ world.grants ∧ requeuedJob queue place world.rows ≠ some item := by
    intro grant hgrant
    obtain ⟨hold, hvoid⟩ := List.mem_filter.mp hgrant
    exact ⟨hold, of_decide_eq_true hvoid⟩
  by_cases hqueued : requeuedJob queue place world.rows = some item
  · refine Leased.Step.queue _ _ hqueued ?_
    refine List.eq_nil_iff_forall_not_mem.mpr (fun grant hgrant => ?_)
    exact (hgrants grant (Leased.mem_grantsOf.mp hgrant)).2 hqueued
  · rcases enqueueJob_cases queue world.now place rowId world.rows with
      ⟨found, hfound, hrows⟩ | ⟨hfresh, -, row, hrow, hrows⟩ | ⟨-, hrows⟩
    · refine keep_job ?_ le_rfl (fun grant hgrant => (hgrants grant hgrant).1)
      change findJob item (enqueueJob queue world.now place rowId world.rows) = _
      rw [hrows]
      refine Keyed.find_update_of_ne (requeueJob world.now) (fun _ => rfl) ?_
      rintro rfl
      exact hqueued hfound
    · have hfind : findJob item (enqueueJob queue world.now place rowId world.rows)
          = if item = row.rowId then some row else findJob item world.rows := by
        rw [hrows]
        exact Keyed.find_concat (by rw [hrow]; exact hfresh)
      by_cases hitem : item = rowId
      · refine Leased.Step.appear _ _ ?_ le_rfl (fun grant hgrant =>
          Leased.mem_grantsOf.mpr (hgrants grant (Leased.mem_grantsOf.mp hgrant)).1)
        change (findJob item world.rows).map jobItem = none
        rw [hitem, hfresh]
        rfl
      · refine keep_job ?_ le_rfl (fun grant hgrant => (hgrants grant hgrant).1)
        rw [hrow, if_neg hitem] at hfind
        exact hfind
    · refine keep_job ?_ le_rfl (fun grant hgrant => (hgrants grant hgrant).1)
      exact congrArg (findJob item) hrows

theorem valid_step (hvalid : (world.rows.map JobRow.rowId).Nodup) (op : QueueOp ρ) :
    ((queueStep queue op world).rows.map JobRow.rowId).Nodup := by
  cases op with
  | wait duration => exact hvalid
  | enqueue place rowId =>
      change ((enqueueJob queue world.now place rowId world.rows).map JobRow.rowId).Nodup
      rcases enqueueJob_cases queue world.now place rowId world.rows with
        ⟨found, -, hrows⟩ | ⟨hfresh, -, row, rfl, hrows⟩ | ⟨-, hrows⟩
      · rw [hrows]
        exact nodup_updateJob found _ _ (fun _ => rfl) hvalid
      · rw [hrows, List.map_append]
        refine List.nodup_append.mpr ⟨hvalid, List.nodup_singleton _, ?_⟩
        intro place hplace other hother hsame
        rw [List.mem_singleton.mp hother] at hsame
        exact Keyed.find_eq_none.mp hfresh (hsame ▸ hplace)
      · rw [hrows]
        exact hvalid
  | claim worker owner limit leaseSeconds rank locked =>
      have hids : (claimJobs world.now owner (boundedOr 30 1800 300 leaseSeconds)
          (claimedJobs queue world limit rank locked) world.rows).map JobRow.rowId
            = world.rows.map JobRow.rowId := by
        unfold claimJobs
        rw [List.map_map]
        refine List.map_congr_left (fun row _ => ?_)
        rw [Function.comp_apply]
        split <;> rfl
      change ((claimJobs _ _ _ _ world.rows).map JobRow.rowId).Nodup
      rw [hids]
      exact hvalid
  | complete worker rowId receipt => exact nodup_updateJob rowId _ _ (fun _ => rfl) hvalid
  | fail worker rowId seen retryable error => exact nodup_updateJob rowId _ _ (fun _ => rfl) hvalid

/-- **The operations of a queue are steps of its items**, where outcomes come in time. -/
theorem queue_refines (queue : Queue ρ) : (queueSystem queue).Refines (ReportsInTime queue) := by
  intro op world hvalid hallowed
  refine ⟨valid_step hvalid op, fun item => ?_⟩
  cases op with
  | wait duration =>
      refine ⟨keep_job rfl ?_ (fun _ hgrant => hgrant), fun hmem => absurd hmem List.not_mem_nil⟩
      exact Int.le_add_of_nonneg_right (Int.natCast_nonneg duration)
  | enqueue place rowId => exact ⟨enqueue_step place rowId item, fun hmem => absurd hmem List.not_mem_nil⟩
  | claim worker owner limit leaseSeconds rank locked =>
      refine ⟨claim_step hvalid worker owner limit leaseSeconds rank locked item, ?_⟩
      rintro hmem state ⟨shown, hshown, hstate⟩
      obtain ⟨row, hrow, hclaimable⟩ := claimable_of_claimed hvalid hmem
      obtain ⟨other, hother, rfl⟩ := Option.map_eq_some_iff.mp hshown
      obtain rfl : row = other := Option.some.inj (hrow.symm.trans hother)
      rw [(free_of_claimable hclaimable).1] at hstate
      exact Option.some_ne_none state hstate.symm
  | complete worker rowId receipt =>
      refine ⟨?_, fun hmem => absurd hmem List.not_mem_nil⟩
      exact report_job worker rowId item (completeJob world.now receipt) (fun _ => rfl) (fun _ _ _ => rfl) hallowed
  | fail worker rowId seen retryable error =>
      refine ⟨?_, fun hmem => absurd hmem List.not_mem_nil⟩
      refine report_job worker rowId item (failJob world.now seen retryable error) (fun _ => rfl) ?_ hallowed.1
      intro row hrow hcompleted
      refine absurd ⟨jobItem row, ?_, ?_⟩ hallowed.2
      · exact congrArg (Option.map jobItem) hrow
      · exact if_pos hcompleted

end Queue

end TradingHarness
