import TradingHarness.Relay.Outboxes

set_option autoImplicit false

/-! # Terminal states of the outboxes

The paper-kb delivery table beside the two queues, and what the three keep. A late outcome is written over
whatever its row has become. -/

namespace TradingHarness

/-! ## The paper-kb deliveries -/

inductive PaperStatus
  | sending
  | sent
  | failed
  | blocked
  deriving DecidableEq

/-- A row of `paper_kb_deliveries`. -/
structure PaperRow where
  eventId : List Char
  targetChatId : List Char
  contentSha256 : List Char
  status : PaperStatus := .sending
  attemptCount : ℕ := 1
  messageId : Option (List Char) := none
  lastError : Option (List Char) := none
  leaseOwner : Option (List Char)
  leaseExpiresAt : Option ℤ
  remoteReceipt : List (List Char × List Char) := []
  updatedAt : ℤ

/-- What a claim answers. -/
inductive PaperClaim
  | claimed
  | conflict
  | duplicate
  | blocked
  | inFlight
  deriving DecidableEq

variable (now : ℤ) (eventId targetChatId contentSha256 owner : List Char) (leaseSeconds : ℤ)
  (rows : List PaperRow)

def findPaper : Option PaperRow :=
  Keyed.find PaperRow.eventId eventId rows

def updatePaper (change : PaperRow → PaperRow) (rows : List PaperRow) : List PaperRow :=
  Keyed.update PaperRow.eventId eventId change rows

/-- `status !== 'sending' || !lease_expires_at || lease_expires_at <= Date.now()` -/
def leaseExpired (row : PaperRow) : Bool :=
  row.status != .sending || row.leaseExpiresAt.all (fun expiry => decide (expiry ≤ now))

def claimPaper (lease : ℤ) (row : PaperRow) : PaperRow :=
  { row with
    targetChatId := targetChatId
    contentSha256 := contentSha256
    status := .sending
    attemptCount := row.attemptCount + 1
    leaseOwner := some owner
    leaseExpiresAt := some (now + interval lease)
    lastError := none
    updatedAt := now }

def claimPaperKbDelivery : PaperClaim × List PaperRow :=
  let lease := boundedOr 30 1800 300 leaseSeconds
  match findPaper eventId rows with
  | none => (.claimed, rows ++ [{ eventId := eventId, targetChatId := targetChatId,
                                  contentSha256 := contentSha256, leaseOwner := some owner,
                                  leaseExpiresAt := some (now + interval lease), updatedAt := now }])
  | some row =>
    if row.targetChatId ≠ targetChatId ∨ row.contentSha256 ≠ contentSha256 then (.conflict, rows)
    else if row.status = .sent then (.duplicate, rows)
    else if row.status = .blocked then (.blocked, rows)
    else if leaseExpired now row = false then (.inFlight, rows)
    else (.claimed, updatePaper eventId (claimPaper now targetChatId contentSha256 owner lease) rows)

/-- What `completePaperKbDelivery` is given. -/
structure PaperOutcome where
  status : PaperStatus
  messageId : Option (List Char) := none
  errorMessage : Option (List Char) := none
  remoteReceipt : List (List Char × List Char) := []

def completePaper (outcome : PaperOutcome) (row : PaperRow) : PaperRow :=
  { row with
    status := outcome.status
    messageId := outcome.messageId
    lastError := outcome.errorMessage.map (List.take 1000)
    remoteReceipt := outcome.remoteReceipt
    leaseOwner := none
    leaseExpiresAt := none
    updatedAt := now }

/-- `completePaperKbDelivery`. A status that is not allowed is refused. -/
def completePaperKbDelivery (outcome : PaperOutcome) (rows : List PaperRow) :
    Except String (List PaperRow) :=
  if outcome.status = .sending then .error "invalid paper-kb delivery status: sending"
  else .ok (updatePaper eventId (completePaper now outcome) rows)

/-- The table, the clock, and what the workers have claimed. -/
structure PaperWorld where
  rows : List PaperRow := []
  now : ℤ := 0
  grants : List (List Char × Leased.Grant) := []

inductive PaperOp
  | wait (duration : ℕ)
  | claim (worker : ℕ) (eventId targetChatId contentSha256 owner : List Char) (leaseSeconds : ℤ)
  | complete (worker : ℕ) (eventId : List Char) (outcome : PaperOutcome)

def paperStep (op : PaperOp) (world : PaperWorld) : PaperWorld :=
  match op with
  | .wait duration => { world with now := world.now + duration }
  | .claim worker eventId targetChatId contentSha256 owner leaseSeconds =>
    match claimPaperKbDelivery world.now eventId targetChatId contentSha256 owner leaseSeconds world.rows with
    | (.claimed, rows) =>
      { world with
        rows := rows
        grants := (eventId, ⟨worker, world.now + interval (boundedOr 30 1800 300 leaseSeconds)⟩) :: world.grants }
    | (_, rows) => { world with rows := rows }
  | .complete worker eventId outcome =>
    match completePaperKbDelivery world.now eventId outcome world.rows with
    | .ok rows =>
      { world with
        rows := rows
        grants := Leased.without worker eventId world.grants }
    | .error _ => world

def paperItem (row : PaperRow) : Leased.Item PaperStatus where
  settled := if row.status = .sent ∨ row.status = .blocked then some row.status else none
  heldUntil := if row.status = .sending then row.leaseExpiresAt else none

/-- The table as a system of leased items. Nothing queues a delivery again. -/
def paperSystem : Leased.System PaperWorld PaperOp (List Char) PaperStatus where
  step := paperStep
  valid world := (world.rows.map PaperRow.eventId).Nodup
  view eventId world :=
    { item := (findPaper eventId world.rows).map paperItem
      now := world.now
      grants := Leased.grantsOf eventId world.grants }
  queues _ _ _ := False
  handsOut op world :=
    match op with
    | .claim _ eventId targetChatId contentSha256 owner leaseSeconds =>
      match claimPaperKbDelivery world.now eventId targetChatId contentSha256 owner leaseSeconds world.rows with
      | (.claimed, _) => [eventId]
      | _ => []
    | _ => []

/-- An outcome comes for a delivery that no other worker has and that is not settled in another status. -/
def PaperInTime (world : PaperWorld) : PaperOp → Prop
  | .complete worker eventId outcome => Leased.Timely (paperSystem.view eventId world) worker ∧
      ∀ status, Leased.Settled (paperSystem.view eventId world) status → outcome.status = status
  | _ => True

/-! ## Its operations as steps of the items -/

variable {world : PaperWorld}

/-- A claim is granted for a delivery that the table does not have, or that is free. -/
theorem claimPaper_cases :
    (∃ claim, claim ≠ .claimed ∧
      claimPaperKbDelivery now eventId targetChatId contentSha256 owner leaseSeconds rows = (claim, rows)) ∨
    (findPaper eventId rows = none ∧ ∃ row : PaperRow, row.eventId = eventId ∧
      paperItem row = ⟨none, some (now + interval (boundedOr 30 1800 300 leaseSeconds))⟩ ∧
      claimPaperKbDelivery now eventId targetChatId contentSha256 owner leaseSeconds rows
        = (.claimed, rows ++ [row])) ∨
    ∃ row, findPaper eventId rows = some row ∧ row.status ≠ .sent ∧ row.status ≠ .blocked ∧
      leaseExpired now row = true ∧
      claimPaperKbDelivery now eventId targetChatId contentSha256 owner leaseSeconds rows
        = (.claimed, updatePaper eventId
            (claimPaper now targetChatId contentSha256 owner (boundedOr 30 1800 300 leaseSeconds)) rows) := by
  unfold claimPaperKbDelivery
  rcases findPaper eventId rows with _ | row
  · exact Or.inr (Or.inl ⟨rfl, _, rfl, rfl, rfl⟩)
  · by_cases hconflict : row.targetChatId ≠ targetChatId ∨ row.contentSha256 ≠ contentSha256
    · exact Or.inl ⟨.conflict, by decide, if_pos hconflict⟩
    · by_cases hsent : row.status = .sent
      · exact Or.inl ⟨.duplicate, by decide, (if_neg hconflict).trans (if_pos hsent)⟩
      · by_cases hblocked : row.status = .blocked
        · exact Or.inl ⟨.blocked, by decide, (if_neg hconflict).trans ((if_neg hsent).trans (if_pos hblocked))⟩
        · rcases hexpired : leaseExpired now row
          · refine Or.inl ⟨.inFlight, by decide, ?_⟩
            dsimp only
            rw [if_neg hconflict, if_neg hsent, if_neg hblocked, if_pos hexpired]
          · refine Or.inr (Or.inr ⟨row, rfl, hsent, hblocked, hexpired, ?_⟩)
            dsimp only
            rw [if_neg hconflict, if_neg hsent, if_neg hblocked, if_neg (by rw [hexpired]; decide)]

theorem free_of_expired {now : ℤ} {row : PaperRow} (hsent : row.status ≠ .sent)
    (hblocked : row.status ≠ .blocked) (hexpired : leaseExpired now row = true) :
    (paperItem row).settled = none ∧ ∀ expiry, (paperItem row).heldUntil = some expiry → expiry ≤ now := by
  refine ⟨if_neg (by simp [hsent, hblocked]), ?_⟩
  intro expiry hexpiry
  unfold paperItem at hexpiry
  dsimp only at hexpiry
  split at hexpiry
  next hsending =>
    unfold leaseExpired at hexpired
    rw [hsending, hexpiry] at hexpired
    simpa using hexpired
  next => exact absurd hexpiry.symm (Option.some_ne_none expiry)

theorem keep_paper {queues : Prop} {after : PaperWorld} {eventId : List Char}
    (hrow : findPaper eventId after.rows = findPaper eventId world.rows) (hnow : world.now ≤ after.now)
    (hgrants : ∀ grant, (eventId, grant) ∈ after.grants → (eventId, grant) ∈ world.grants) :
    Leased.Step queues (paperSystem.view eventId world) (paperSystem.view eventId after) := by
  refine Leased.Step.keep _ _ (congrArg (Option.map paperItem) hrow) hnow ?_
  intro grant hgrant
  exact Leased.mem_grantsOf.mpr (hgrants grant (Leased.mem_grantsOf.mp hgrant))

/-- A granted claim. -/
theorem granted_paper {queues : Prop} {rows : List PaperRow} {worker : ℕ} {eventId item : List Char} {expiry : ℤ}
    (hfree : ∀ row, findPaper eventId world.rows = some row → (paperItem row).settled = none ∧
      ∀ expiry, (paperItem row).heldUntil = some expiry → expiry ≤ world.now)
    (htaken : ∃ row, findPaper eventId rows = some row ∧ paperItem row = ⟨none, some expiry⟩)
    (hothers : item ≠ eventId → findPaper item rows = findPaper item world.rows) :
    Leased.Step queues (paperSystem.view item world) (paperSystem.view item
      { world with rows := rows, grants := (eventId, ⟨worker, expiry⟩) :: world.grants }) := by
  by_cases hitem : item = eventId
  · subst hitem
    obtain ⟨row, hrow, hshown⟩ := htaken
    refine Leased.Step.claim _ _ _ ⟨worker, expiry⟩ ?_ ?_ rfl rfl ?_
    · intro shown hshown
      obtain ⟨old, hold, rfl⟩ := Option.map_eq_some_iff.mp hshown
      exact hfree old hold
    · change (findPaper item rows).map paperItem = _
      rw [hrow, Option.map_some, hshown]
    · intro grant hgrant
      rcases List.mem_cons.mp (Leased.mem_grantsOf.mp hgrant) with hnew | hold
      · exact Or.inl (congrArg Prod.snd hnew)
      · exact Or.inr (Leased.mem_grantsOf.mpr hold)
  · refine keep_paper (hothers hitem) le_rfl ?_
    intro grant hgrant
    rcases List.mem_cons.mp hgrant with hnew | hold
    · exact absurd (congrArg Prod.fst hnew) hitem
    · exact hold

theorem claim_paper_step (worker : ℕ) (eventId targetChatId contentSha256 owner : List Char) (leaseSeconds : ℤ)
    (hvalid : (world.rows.map PaperRow.eventId).Nodup) :
    ((paperStep (.claim worker eventId targetChatId contentSha256 owner leaseSeconds) world).rows.map
      PaperRow.eventId).Nodup ∧
    ∀ item, Leased.Step False (paperSystem.view item world) (paperSystem.view item
        (paperStep (.claim worker eventId targetChatId contentSha256 owner leaseSeconds) world)) ∧
      (item ∈ paperSystem.handsOut (.claim worker eventId targetChatId contentSha256 owner leaseSeconds) world →
        ∀ status, ¬ Leased.Settled (paperSystem.view item world) status) := by
  unfold paperStep paperSystem
  dsimp only
  rcases claimPaper_cases world.now eventId targetChatId contentSha256 owner leaseSeconds world.rows with
    ⟨claim, hclaim, hresult⟩ | ⟨hfresh, row, rfl, hshown, hresult⟩ |
    ⟨row, hrow, hsent, hblocked, hexpired, hresult⟩
  · rw [hresult]
    rcases claim with _ | _ | _ | _ | _
    · exact absurd rfl hclaim
    all_goals
      exact ⟨hvalid, fun item => ⟨keep_paper rfl le_rfl (fun _ hgrant => hgrant),
        fun hmem => absurd hmem List.not_mem_nil⟩⟩
  · rw [hresult]
    have hnone : ∀ old, findPaper row.eventId world.rows ≠ some old := by
      intro old hold
      exact Option.some_ne_none old (hold.symm.trans hfresh)
    refine ⟨?_, fun item => ⟨?_, ?_⟩⟩
    · rw [List.map_append]
      refine List.nodup_append.mpr ⟨hvalid, List.nodup_singleton _, ?_⟩
      intro place hplace other hother hsame
      rw [List.mem_singleton.mp hother] at hsame
      exact Keyed.find_eq_none.mp hfresh (hsame ▸ hplace)
    · refine granted_paper (fun old hold => absurd hold (hnone old)) ⟨row, ?_, hshown⟩ ?_
      · exact (Keyed.find_concat hfresh).trans (if_pos rfl)
      · exact fun hitem => (Keyed.find_concat hfresh).trans (if_neg hitem)
    · rintro hmem status ⟨shown, hshown, -⟩
      obtain rfl := List.mem_singleton.mp hmem
      obtain ⟨old, hold, -⟩ := Option.map_eq_some_iff.mp hshown
      exact hnone old hold
  · rw [hresult]
    have hfree : ∀ old, findPaper eventId world.rows = some old → (paperItem old).settled = none ∧
        ∀ expiry, (paperItem old).heldUntil = some expiry → expiry ≤ world.now := by
      intro old hold
      obtain rfl : row = old := Option.some.inj (hrow.symm.trans hold)
      exact free_of_expired hsent hblocked hexpired
    have hid : ∀ lease, ∀ old : PaperRow,
        (claimPaper world.now targetChatId contentSha256 owner lease old).eventId = old.eventId :=
      fun _ _ => rfl
    refine ⟨?_, fun item => ⟨?_, ?_⟩⟩
    · dsimp only
      unfold updatePaper
      rw [Keyed.map_update _ PaperRow.eventId (fun old _ _ => hid _ old)]
      exact hvalid
    · refine granted_paper hfree ⟨claimPaper world.now targetChatId contentSha256 owner _ row, ?_, rfl⟩ ?_
      · exact (Keyed.find_update_self _ (hid _)).trans (by
          rw [show Keyed.find PaperRow.eventId eventId world.rows = some row from hrow, Option.map_some])
      · exact fun hitem => Keyed.find_update_of_ne _ (hid _) hitem
    · rintro hmem status ⟨shown, hshown, hstatus⟩
      obtain rfl := List.mem_singleton.mp hmem
      obtain ⟨old, hold, rfl⟩ := Option.map_eq_some_iff.mp hshown
      rw [(hfree old hold).1] at hstatus
      exact Option.some_ne_none status hstatus.symm

/-- **The operations of the paper-kb table are steps of its items**, where outcomes come in time. -/
theorem paper_refines : paperSystem.Refines PaperInTime := by
  intro op world hvalid hallowed
  cases op with
  | wait duration =>
      refine ⟨hvalid, fun item => ⟨keep_paper rfl ?_ (fun _ hgrant => hgrant),
        fun hmem => absurd hmem List.not_mem_nil⟩⟩
      exact Int.le_add_of_nonneg_right (Int.natCast_nonneg duration)
  | claim worker eventId targetChatId contentSha256 owner leaseSeconds =>
      exact claim_paper_step worker eventId targetChatId contentSha256 owner leaseSeconds hvalid
  | complete worker eventId outcome =>
      obtain ⟨htimely, hsettled⟩ := hallowed
      have hid : ∀ row, (completePaper world.now outcome row).eventId = row.eventId := fun _ => rfl
      unfold paperSystem paperStep completePaperKbDelivery at *
      dsimp only at *
      by_cases hsending : outcome.status = .sending
      · rw [if_pos hsending]
        exact ⟨hvalid, fun item => ⟨keep_paper rfl le_rfl (fun _ hgrant => hgrant),
          fun hmem => absurd hmem List.not_mem_nil⟩⟩
      · rw [if_neg hsending]
        refine ⟨?_, fun item => ⟨?_, fun hmem => absurd hmem List.not_mem_nil⟩⟩
        · unfold updatePaper
          rw [Keyed.map_update _ PaperRow.eventId (fun row _ _ => hid row)]
          exact hvalid
        · refine Leased.step_report (fun item => (findPaper item world.rows).map paperItem)
            (fun item => (findPaper item
              (updatePaper eventId (completePaper world.now outcome) world.rows)).map paperItem)
            world.now worker eventId ?_ ?_ htimely
          · intro hitem
            exact congrArg (Option.map paperItem) (Keyed.find_update_of_ne _ hid hitem)
          · intro old status hold hstatus
            have hsame := hsettled status ⟨old, hold, hstatus⟩
            obtain ⟨row, hrow, rfl⟩ := Option.map_eq_some_iff.mp hold
            refine ⟨paperItem (completePaper world.now outcome row), ?_, ?_⟩
            · have hself : findPaper eventId (updatePaper eventId (completePaper world.now outcome) world.rows)
                  = (findPaper eventId world.rows).map (completePaper world.now outcome) :=
                Keyed.find_update_self _ hid
              rw [hself, hrow]
              rfl
            · unfold paperItem at hstatus ⊢
              dsimp only at hstatus
              split at hstatus
              next hterminal =>
                obtain rfl := Option.some.inj hstatus
                change (if outcome.status = .sent ∨ outcome.status = .blocked then some outcome.status else none) = _
                rw [hsame, if_pos hterminal]
              next => exact absurd hstatus.symm (Option.some_ne_none status)

/-! ## What the three tables keep -/

/-- In every run of allowed operations from an empty table, one worker at a time has an item, under the lease that
    stands with it, and a settled item stays so and is not handed out until it is queued again. -/
def KeepsTerminal {ω ο κ σ : Type} (system : Leased.System ω ο κ σ) (allowed : ω → ο → Prop) (empty : ω) : Prop :=
  ∀ world, system.Run allowed empty world → system.Exclusive world ∧ system.KeepsSettled allowed world

theorem keepsTerminal_of_refines {ω ο κ σ : Type} {system : Leased.System ω ο κ σ} {allowed : ω → ο → Prop}
    {empty : ω} (hrefines : system.Refines allowed) (hvalid : system.valid empty)
    (hempty : ∀ item, (system.view item empty).grants = []) : KeepsTerminal system allowed empty := by
  intro world hrun
  refine ⟨Leased.System.exclusive_run hrefines hvalid (fun item => ?_) hrun,
    Leased.System.keepsSettled_run hrefines hvalid hrun⟩
  refine Leased.sound_of_expired (fun grant hgrant => ?_)
  rw [hempty] at hgrant
  exact absurd hgrant List.not_mem_nil

/-- **The outboxes keep their terminal states**: where outcomes come in time, leases are exclusive and a completed,
    sent or blocked item stays so and is not claimed, until it is enqueued again. -/
theorem outboxes_keep_terminal (now : ℤ) :
    KeepsTerminal (queueSystem deliveryOutbox) (ReportsInTime deliveryOutbox) { now := now } ∧
    KeepsTerminal (queueSystem archiveQueue) (ReportsInTime archiveQueue) { now := now } ∧
    KeepsTerminal paperSystem PaperInTime { now := now } :=
  ⟨keepsTerminal_of_refines (queue_refines deliveryOutbox) List.nodup_nil (fun _ => rfl),
    keepsTerminal_of_refines (queue_refines archiveQueue) List.nodup_nil (fun _ => rfl),
    keepsTerminal_of_refines paper_refines List.nodup_nil (fun _ => rfl)⟩

/-! ## Late outcomes -/

/-- A worker claims the one row, its lease expires, and a second worker claims it. -/
def expiredDelivery : List (QueueOp Unit) :=
  [.enqueue ['j'] 0, .claim 1 ['a'] 1 300 (fun _ => 0) [], .wait 301000000,
    .claim 2 ['b'] 1 300 (fun _ => 0) []]

def queueAfter (ops : List (QueueOp Unit)) (world : QueueWorld Unit) : QueueWorld Unit :=
  ops.foldl (fun world op => queueStep deliveryOutbox op world) world

theorem run_queueAfter (allowed : QueueWorld Unit → QueueOp Unit → Prop) (ops : List (QueueOp Unit))
    (world : QueueWorld Unit) (hallowed : ∀ world, ∀ op ∈ ops, allowed world op) :
    (queueSystem deliveryOutbox).Run allowed world (queueAfter ops world) := by
  induction ops generalizing world with
  | nil => exact Relation.ReflTransGen.refl
  | cons op rest ih =>
      exact Relation.ReflTransGen.head ⟨op, hallowed world op List.mem_cons_self, rfl⟩
        (ih _ (fun world other hother => hallowed world other (List.mem_cons_of_mem _ hother)))

theorem outboxes_keep_terminal_expired :
    ¬ Leased.Holds ((queueSystem deliveryOutbox).view 0 (queueAfter expiredDelivery {})) 1 := by
  have hrun : (queueSystem deliveryOutbox).Run (ReportsInTime deliveryOutbox) { now := 0 }
      (queueAfter expiredDelivery {}) := by
    refine run_queueAfter _ expiredDelivery {} (fun world op hop => ?_)
    simp only [expiredDelivery, List.mem_cons, List.not_mem_nil, or_false] at hop
    rcases hop with rfl | rfl | rfl | rfl <;> trivial
  have hsecond : Leased.Holds ((queueSystem deliveryOutbox).view 0 (queueAfter expiredDelivery {})) 2 := by
    unfold Leased.Holds
    decide +kernel
  intro hfirst
  exact absurd ((((outboxes_keep_terminal 0).1 _ hrun).1 0).1 1 2 hfirst hsecond) (by decide)

/-- The first worker reports its failure late: while the second has the row, whose lease is erased, or once the
    second has completed it, which is failed then, and is handed out again. -/
theorem late_outcome_is_written :
    (∃ world, (queueSystem deliveryOutbox).Run (fun _ _ => True) {} world ∧
      ¬ (queueSystem deliveryOutbox).Exclusive world) ∧
    ∃ world, (queueSystem deliveryOutbox).Run (fun _ _ => True) {} world ∧
      ¬ (queueSystem deliveryOutbox).KeepsSettled (fun _ _ => True) world := by
  refine ⟨⟨_, run_queueAfter _ (expiredDelivery ++ [.fail 1 0 1 true []]) {} (fun _ _ _ => trivial), ?_⟩,
    ⟨_, run_queueAfter _ (expiredDelivery ++ [.complete 2 0 ()]) {} (fun _ _ _ => trivial), ?_⟩⟩
  · intro hexclusive
    have hstanding := (hexclusive 0).2 ⟨2, 601000000⟩ (by decide +kernel) (by decide +kernel)
    exact absurd hstanding (by decide +kernel)
  · intro hkeeps
    have hsettled : Leased.Settled ((queueSystem deliveryOutbox).view 0
        (queueAfter (expiredDelivery ++ [.complete 2 0 ()]) {})) .completed := ⟨_, rfl, rfl⟩
    have hlate := run_queueAfter (fun world op => True ∧ ¬ (queueSystem deliveryOutbox).queues 0 world op)
      [.fail 1 0 1 true [], .wait 20000000] (queueAfter (expiredDelivery ++ [.complete 2 0 ()]) {})
      (fun world op hop => by
        simp only [List.mem_cons, List.not_mem_nil, or_false] at hop
        rcases hop with rfl | rfl <;> exact ⟨trivial, not_false⟩)
    exact (hkeeps 0 .completed hsettled _ hlate).2 (.claim 3 ['c'] 1 300 (fun _ => 0) []) trivial
      (by decide +kernel)

end TradingHarness
