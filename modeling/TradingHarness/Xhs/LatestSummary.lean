import TradingHarness.Xhs.Fenced
import TradingHarness.Xhs.Operations

set_option autoImplicit false

/-! # The latest summary

`Store.latest_summary` reads the newest result that is not a command's. Summaries and decisions are stored in one column,
and only the former have the text that is read. -/

namespace TradingHarness.Xhs

/-! ## Results -/

/-- The dictionary of a result. -/
abbrev JobResult := List (String × Json)

/-- What `Store.complete` asks of a summary. -/
def refusesSummary (isspace : Char → Bool) (result : JobResult) : Option String :=
  match result.lookup "summary" with
  | some (.scalar (.str text)) =>
    if text.toList.all isspace = true ∨ 20000 < text.length ∨ truthyJson ((result.lookup "model").getD (.scalar .null)) = false
    then some "invalid_summary" else none
  | _ => some "invalid_summary"

section Latest

variable {π δ : Type}

/-- Decisions are judged by their own functions. -/
def refusesResult (isspace : Char → Bool) (refusesDecisions : Job π JobResult δ → JobResult → Option String) :
    Option (Job π JobResult δ) → JobResult → Option String
  | some job, result => if job.jobType.isClassify then refusesDecisions job result else refusesSummary isspace result
  | none, result => refusesSummary isspace result

/-- A message, or the answer to a command. -/
def textResult (text model : String) : JobResult := [("summary", .scalar (.str text)), ("model", .scalar (.str model))]

/-- A job without a result, or one with a text. -/
def NewJob.Issued (fresh : NewJob π JobResult) : Prop :=
  fresh.message = none ∨ (fresh.jobType.isClassify = false ∧ ∃ text model, fresh.message = some (textResult text model))

/-- The inserts are those of the store. -/
def Issued : JobOp π JobResult → Prop
  | .insert fresh => fresh.Issued
  | .requestSingleNote fresh _ => fresh.Issued
  | _ => True

/-- `job_id LIKE 'xhs-cmd-%'` -/
def isCommand (jobId : String) : Bool := "xhs-cmd-".toList.isPrefixOf (jobId.toList.map Char.toLower)

def placeholder : String := "暂无已完成摘要；本地 AI 上线后会自动处理待办。"

/-- The row that the query gives: the newest, and any of those that were created at one time. -/
def Queried (jobs : List (Job π JobResult δ)) : Option (Job π JobResult δ) → Prop
  | none => ∀ job ∈ jobs, job.result.isSome = true → isCommand job.jobId = true
  | some row => (row ∈ jobs ∧ row.result.isSome = true ∧ isCommand row.jobId = false) ∧
      ∀ job ∈ jobs, job.result.isSome = true → isCommand job.jobId = false → job.created ≤ row.created

/-- `Store.latest_summary` with the row of its query. -/
def latestSummary : Option (Job π JobResult δ) → Except String Json
  | none => .ok (.scalar (.str placeholder))
  | some row =>
    match (row.result.getD []).lookup "summary" with
    | some summary => .ok summary
    | none => .error "KeyError: 'summary'"

/-! ## Every summary has its text -/

def Job.Told (job : Job π JobResult δ) : Prop :=
  ∀ result, job.result = some result → job.jobType.isClassify = false →
    ∃ text, result.lookup "summary" = some (.scalar (.str text))

def AllTold (world : JobWorld π JobResult δ) : Prop := ∀ job ∈ world.jobs, job.Told

theorem told_of_accepted {isspace : Char → Bool} {result : JobResult} (h : refusesSummary isspace result = none) :
    ∃ text, result.lookup "summary" = some (.scalar (.str text)) := by
  unfold refusesSummary at h
  split at h
  next text hsummary => exact ⟨text, hsummary⟩
  next => exact absurd h (by simp)

theorem told_update {jobs : List (Job π JobResult δ)} {place : String} {change : Job π JobResult δ → Job π JobResult δ}
    (h : ∀ job ∈ jobs, job.Told) (hchange : ∀ job ∈ jobs, job.Told → (change job).Told) :
    ∀ job ∈ Keyed.update Job.jobId place change jobs, job.Told := by
  intro job hjob
  rcases Keyed.mem_update.mp hjob with ⟨old, hold, -, rfl⟩ | ⟨hold, -⟩
  · exact hchange old hold (h old hold)
  · exact h job hold

theorem told_insertJob {jobs : List (Job π JobResult δ)} {fresh : NewJob π JobResult} (h : ∀ job ∈ jobs, job.Told)
    (hfresh : fresh.Issued) : ∀ job ∈ insertJob fresh jobs, job.Told := by
  intro job hjob
  unfold insertJob at hjob
  split at hjob
  next =>
    rcases List.mem_append.mp hjob with hold | hnew
    · exact h job hold
    · rw [List.mem_singleton.mp hnew]
      intro result hresult htype
      rcases hfresh with hnone | ⟨-, text, model, hmessage⟩
      · exact absurd (hnone.symm.trans hresult) (by simp)
      · obtain rfl := Option.some.inj (hmessage.symm.trans hresult)
        exact ⟨text, rfl⟩
  next => exact h job hjob

theorem told_asRequested (deliver : Bool) (revise : π → π) {job : Job π JobResult δ} (h : job.Told) :
    (asRequested deliver revise job).Told := by
  unfold asRequested
  dsimp only
  split
  next => exact h
  next =>
    split
    next => exact h
    next => exact h

/-- A result gets in where it is not refused. -/
theorem complete_accepted [DecidableEq δ] {digest : JobResult → δ}
    {refuses : Option (Job π JobResult δ) → JobResult → Option String} {jobId : String} {lease : ℕ} {result : JobResult}
    {now : Timestamp} {jobs after : List (Job π JobResult δ)}
    (h : complete digest refuses jobId lease result now jobs = .ok (.written, after)) :
    ∃ job, Keyed.find Job.jobId jobId jobs = some job ∧ refuses (some job) result = none := by
  unfold complete at h
  dsimp only at h
  split at h
  next => exact absurd h (by simp)
  next job hfind =>
    refine ⟨job, hfind, ?_⟩
    rcases hrefuses : refuses (some job) result with _ | error
    · rfl
    · rw [hrefuses] at h
      split at h
      next => split at h <;> simp at h
      next => simp at h

variable [DecidableEq δ] {digest : JobResult → δ} {isspace : Char → Bool}
  {refusesDecisions : Job π JobResult δ → JobResult → Option String} {world : JobWorld π JobResult δ}

theorem allTold_step (op : JobOp π JobResult) (hissued : Issued op) (hsound : JobsSound world) (h : AllTold world) :
    AllTold (jobStep digest (refusesResult isspace refusesDecisions) op world) := by
  cases op with
  | insert fresh => exact told_insertJob h hissued
  | claim worker lane now =>
      unfold jobStep
      dsimp only
      split
      next taken jobs hclaim =>
        obtain ⟨-, -, -, rfl⟩ := claim_taken hclaim
        exact told_update h (fun _ _ hold => hold)
      next => exact h
  | heartbeat jobId lease now =>
      unfold jobStep
      dsimp only
      split
      next jobs hheartbeat =>
        obtain ⟨-, -, -, rfl⟩ := heartbeat_ok hheartbeat
        exact told_update h (fun _ _ hold => hold)
      next => exact h
  | complete jobId lease result now =>
      unfold jobStep
      dsimp only
      split
      next jobs hcomplete =>
        obtain ⟨held, hfind, haccepted⟩ := complete_accepted hcomplete
        obtain ⟨-, -, -, rfl⟩ := complete_written hcomplete
        -- the row that is written is the one whose type the result was judged by
        intro job hjob
        rcases Keyed.mem_update.mp hjob with ⟨old, hold, hid, rfl⟩ | ⟨hold, -⟩
        · rw [eq_of_find hsound hfind hold hid] at *
          intro written hwritten htype
          obtain rfl := Option.some.inj hwritten
          have htype : held.jobType.isClassify = false := htype
          rw [refusesResult, if_neg (by simp [htype])] at haccepted
          exact told_of_accepted haccepted
        · exact h job hold
      next => exact h
  | fail jobId lease error now =>
      unfold jobStep
      dsimp only
      split
      next jobs hfail =>
        obtain ⟨-, -, -, rfl⟩ := fail_ok hfail
        exact told_update h (fun _ _ hold => hold)
      next => exact h
  | delivered jobId => exact told_update h (fun job _ hold => by split <;> exact hold)
  | retryJob jobId => exact told_update h (fun job _ hold => by split <;> exact hold)
  | retryFilter runId =>
      unfold jobStep
      dsimp only
      rw [retryFilterJob_eq]
      rcases filterJobOf runId world.jobs with _ | filter
      · exact h
      · exact told_update h (fun job _ hold => by split <;> exact hold)
  | requestSingleNote fresh revise =>
      exact told_update (told_insertJob h hissued) (fun job _ hold => told_asRequested fresh.deliverToFeishu revise hold)

theorem allTold_afterwards (ops : List (JobOp π JobResult)) (hissued : ∀ op ∈ ops, Issued op) :
    AllTold (Driven.afterwards (jobStep digest (refusesResult isspace refusesDecisions)) ops {}) := by
  induction ops using List.reverseRecOn with
  | nil => exact fun _ hjob => absurd hjob List.not_mem_nil
  | append_singleton ops op ih =>
      rw [Driven.afterwards_concat]
      exact allTold_step op (hissued op (by simp)) (jobsSound_afterwards digest _ ops)
        (ih (fun op hop => hissued op (List.mem_append_left _ hop)))

/-- **The newest result that is not a command's is shown where it is a summary**, whatever ran before. -/
theorem latestSummary_tells (digest : JobResult → δ) (isspace : Char → Bool)
    (refusesDecisions : Job π JobResult δ → JobResult → Option String) (ops : List (JobOp π JobResult))
    (hissued : ∀ op ∈ ops, Issued op) (row : Option (Job π JobResult δ))
    (hrow : Queried (Driven.afterwards (jobStep digest (refusesResult isspace refusesDecisions)) ops {}).jobs row) :
    (row = none → latestSummary row = .ok (.scalar (.str placeholder))) ∧
      ∀ job, row = some job → job.jobType.isClassify = false →
        ∃ result text, job.result = some result ∧ result.lookup "summary" = some (.scalar (.str text)) ∧
          latestSummary row = .ok (.scalar (.str text)) := by
  refine ⟨fun hnone => by rw [hnone]; rfl, ?_⟩
  rintro job rfl htype
  obtain ⟨⟨hjob, hresult, -⟩, -⟩ := hrow
  obtain ⟨result, hresult⟩ := Option.isSome_iff_exists.mp hresult
  obtain ⟨text, htext⟩ := allTold_afterwards ops hissued job hjob result hresult htype
  refine ⟨result, text, hresult, htext, ?_⟩
  rw [latestSummary, hresult, Option.getD_some, htext]

end Latest

/-- A message and, after it, the answer to a command. -/
def messageThenCommand : List (JobOp Unit JobResult) :=
  [.insert { jobId := "xhs-dashboard-1", jobType := .manualMessage, payload := (), created := 1, message := some (textResult "old" "m") },
    .insert { jobId := "xhs-cmd-1", payload := (), created := 2, message := some (textResult "new" "command") }]

def afterMessages (ops : List (JobOp Unit JobResult)) : JobWorld Unit JobResult Unit :=
  Driven.afterwards (jobStep (fun _ => ()) (refusesResult Char.isWhitespace (fun _ _ => none))) ops {}

theorem issued_messageThenCommand : ∀ op ∈ messageThenCommand, Issued op := by
  simp [messageThenCommand, Issued, NewJob.Issued, JobType.isClassify, textResult]

/-- The row of the message. -/
def messageRow : Job Unit JobResult Unit :=
  { jobId := "xhs-dashboard-1", jobType := .manualMessage, status := .ready, payload := (), created := 1
    result := some (textResult "old" "m") }

theorem queried_messageRow : Queried (afterMessages messageThenCommand).jobs (some messageRow) := by
  refine ⟨⟨List.mem_cons_self, rfl, by decide⟩, fun job hjob _ hcommand => ?_⟩
  rcases List.mem_cons.mp hjob with rfl | hjob
  · exact le_refl _
  · obtain rfl := List.mem_singleton.mp hjob
    exact absurd hcommand (by decide)

theorem latestSummary_tells_message : latestSummary (some messageRow) = .ok (.scalar (.str "old")) := by
  obtain ⟨result, text, hresult, htext, htold⟩ := (latestSummary_tells (fun _ => ()) Char.isWhitespace (fun _ _ => none)
    messageThenCommand issued_messageThenCommand _ queried_messageRow).2 messageRow rfl rfl
  obtain rfl := Option.some.inj hresult
  exact htold.trans (congrArg Except.ok (Option.some.inj htext).symm)

/-- The answer to a command has a summary, and is not shown. -/
theorem command_answer_skipped :
    ¬ ∀ ops : List (JobOp Unit JobResult), (∀ op ∈ ops, Issued op) → ∀ row, Queried (afterMessages ops).jobs row →
      ∀ job ∈ (afterMessages ops).jobs, ∀ result text, job.result = some result →
        result.lookup "summary" = some (.scalar (.str text)) →
        (∀ other ∈ (afterMessages ops).jobs, other.result.isSome = true → other.created ≤ job.created) →
        latestSummary row = .ok (.scalar (.str text)) := by
  intro h
  have hnew := h messageThenCommand issued_messageThenCommand _ queried_messageRow
    { jobId := "xhs-cmd-1", status := .ready, payload := (), created := 2, result := some (textResult "new" "command") }
    (List.mem_cons_of_mem _ List.mem_cons_self) _ "new" rfl rfl (by
      intro other hother _
      rcases List.mem_cons.mp hother with rfl | hother
      · decide
      · obtain rfl := List.mem_singleton.mp hother
        exact le_refl _)
  exact absurd hnew (by simp [latestSummary, messageRow, textResult])

end TradingHarness.Xhs
