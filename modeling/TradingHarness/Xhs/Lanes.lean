import TradingHarness.Xhs.Jobs

set_option autoImplicit false

/-! # Lanes

How the revisions of notes get to the AI in `store.py` and `collector.py`: the watch and the keyword collector store
notes, a recommendation run stores a note and then reserves its revision, and `enqueue_pending` puts what is left into
a summary or a screening job. Each operation is one transaction. -/

namespace TradingHarness.Xhs

/-! ## Rows -/

/-- A collected note. The watch lane adds its user, the others leave that empty. -/
structure NoteBody (β : Type) where
  noteId : String
  contentHash : String
  watchUserId : String := ""
  content : β

/-- A row of `notes`. -/
structure NoteRow (β δ : Type) where
  revision : δ
  noteId : String
  contentHash : String
  body : NoteBody β
  firstSeen : Timestamp
  lastSeen : Timestamp
  jobId : Option String := none

/-- A row of `recommendation_items`, whose candidate is the revision. -/
structure RecommendationItem (δ : Type) where
  runId : String
  revision : δ
  noteId : String
  sourceRank : ℤ
  created : Timestamp

/-- A note in a payload, with its `_candidate_id` in a screening. -/
structure PayloadNote (β δ : Type) where
  candidateId : Option δ := none
  body : NoteBody β

/-- A job that `enqueue_pending` inserts. -/
structure NotesJob (β δ ϕ : Type) where
  jobId : String
  jobType : JobType
  notes : List (PayloadNote β δ)
  candidateIds : List δ := []
  policy : ϕ
  created : Timestamp

/-- A note that a recommendation run has added, before its item. -/
structure Collected (β : Type) where
  runId : String
  note : NoteBody β
  sourceRank : ℤ

/-- What is one and the same in all calls: the hashes of a revision and of a list of them, and the policy. -/
structure LaneConfig (δ ϕ : Type) where
  digest : String → String → δ
  digestAll : List δ → String
  policy : ϕ

structure LaneWorld (β δ ϕ : Type) where
  notes : List (NoteRow β δ) := []
  queries : List (δ × String) := []
  items : List (RecommendationItem δ) := []
  jobs : List (NotesJob β δ ϕ) := []
  collecting : List (Collected β) := []
  watched : List δ := []

section Lanes

variable {β δ ϕ : Type} [DecidableEq δ]

def LaneConfig.revisionOf (config : LaneConfig δ ϕ) (note : NoteBody β) : δ := config.digest note.noteId note.contentHash

/-! ## Operations of the store -/

/-- `Store.add_note`: the body of a revision that is known stays. -/
def addNote (config : LaneConfig δ ϕ) (note : NoteBody β) (query : String) (now : Timestamp) (world : LaneWorld β δ ϕ) :
    LaneWorld β δ ϕ :=
  let revision := config.revisionOf note
  { world with
    notes :=
      match Keyed.find NoteRow.revision revision world.notes with
      | none => world.notes ++ [⟨revision, note.noteId, note.contentHash, note, now, now, none⟩]
      | some _ => Keyed.update NoteRow.revision revision (fun row => { row with lastSeen := now }) world.notes
    queries := if (revision, query) ∈ world.queries then world.queries else world.queries ++ [(revision, query)] }

/-- `UPDATE notes SET job_id=? WHERE revision=? AND job_id IS NULL` -/
def withJob (jobId : String) (row : NoteRow β δ) : NoteRow β δ :=
  match row.jobId with
  | none => { row with jobId := some jobId }
  | some _ => row

def addRecommendationItem (config : LaneConfig δ ϕ) (collected : Collected β) (now : Timestamp)
    (world : LaneWorld β δ ϕ) : LaneWorld β δ ϕ :=
  let revision := config.revisionOf collected.note
  { world with
    items :=
      if world.items.any (fun item => item.runId == collected.runId && decide (item.revision = revision)) then world.items
      else world.items ++ [⟨collected.runId, revision, collected.note.noteId, collected.sourceRank, now⟩]
    notes := Keyed.update NoteRow.revision revision (withJob ("xhs-recommendation:" ++ collected.runId)) world.notes }

/-- The rows without a job, the first seen first. -/
def pendingRows (limit : ℕ) (notes : List (NoteRow β δ)) : List (NoteRow β δ) :=
  ((notes.filter (fun row => row.jobId.isNone)).insertionSort (fun row other => row.firstSeen ≤ other.firstSeen)).take limit

def isWatchRow (row : NoteRow β δ) : Bool := row.body.watchUserId != ""

/-- The job of rows, which gives them its id. A second job of one id is refused. -/
def queueRows (job : NotesJob β δ ϕ) (rows : List (NoteRow β δ)) (world : LaneWorld β δ ϕ) :
    Except String (Option String × LaneWorld β δ ϕ) :=
  if world.jobs.any (fun known => known.jobId == job.jobId) then .error "UNIQUE constraint failed: jobs.job_id"
  else
    .ok (some job.jobId, { world with
      jobs := world.jobs ++ [job]
      notes := world.notes.map (fun row =>
        if row.revision ∈ rows.map NoteRow.revision then { row with jobId := some job.jobId } else row) })

def shortDigest (config : LaneConfig δ ϕ) (rows : List (NoteRow β δ)) : String :=
  String.ofList ((config.digestAll (rows.map NoteRow.revision)).toList.take 32)

def summaryJob (config : LaneConfig δ ϕ) (rows : List (NoteRow β δ)) (now : Timestamp) : NotesJob β δ ϕ where
  jobId := "xhs-" ++ shortDigest config rows
  jobType := .summary
  notes := rows.map (fun row => { body := row.body })
  policy := config.policy
  created := now

def screeningJob (config : LaneConfig δ ϕ) (rows : List (NoteRow β δ)) (now : Timestamp) : NotesJob β δ ϕ where
  jobId := "xhs-screen-" ++ shortDigest config rows
  jobType := .classifyNotes
  notes := rows.map (fun row => { candidateId := some row.revision, body := row.body })
  candidateIds := rows.map NoteRow.revision
  policy := config.policy
  created := now

/-- `Store.enqueue_pending`: where there are notes of the watch lane, they go first and alone. -/
def enqueuePending (config : LaneConfig δ ϕ) (limit : ℕ) (now : Timestamp) (world : LaneWorld β δ ϕ) :
    Except String (Option String × LaneWorld β δ ϕ) :=
  let rows := pendingRows limit world.notes
  let watchRows := rows.filter isWatchRow
  if rows.isEmpty then .ok (none, world)
  else if !watchRows.isEmpty then queueRows (summaryJob config watchRows now) watchRows world
  else queueRows (screeningJob config rows now) rows world

/-! ## Collectors -/

inductive LaneOp (β : Type)
  | watch (userId : String) (note : NoteBody β) (query : String) (now : Timestamp)
  | keyword (note : NoteBody β) (query : String) (now : Timestamp)
  | recommend (collected : Collected β) (now : Timestamp)
  | reserve (place : ℕ) (now : Timestamp)
  | enqueue (limit : ℕ) (now : Timestamp)

/-- The revisions of a job's notes. -/
def jobRevisions (config : LaneConfig δ ϕ) (job : NotesJob β δ ϕ) : List δ :=
  job.notes.map (fun note => config.revisionOf note.body)

/-- All that was ever queued. -/
def queuedRevisions (config : LaneConfig δ ϕ) (world : LaneWorld β δ ϕ) : List δ :=
  world.jobs.flatMap (jobRevisions config)

/-- One transaction of a collector, or of `enqueue_pending` in any thread. A recommendation run adds its note and, at any
    later time or never, the item; `watched` notes what the watch lane observes before it is queued. -/
def laneStep (config : LaneConfig δ ϕ) (op : LaneOp β) (world : LaneWorld β δ ϕ) : LaneWorld β δ ϕ :=
  match op with
  | .watch userId note query now =>
    if userId = "" then world
    else
      let added := addNote config { note with watchUserId := userId } query now world
      if config.revisionOf note ∈ queuedRevisions config world then added
      else { added with watched := config.revisionOf note :: world.watched }
  | .keyword note query now => addNote config { note with watchUserId := "" } query now world
  | .recommend collected now =>
    let note := { collected.note with watchUserId := "" }
    { addNote config note ("recommendation:" ++ collected.runId) now world with
      collecting := world.collecting ++ [{ collected with note := note }] }
  | .reserve place now =>
    match world.collecting[place]? with
    | none => world
    | some collected =>
      { addRecommendationItem config collected now world with collecting := world.collecting.eraseIdx place }
  | .enqueue limit now =>
    match enqueuePending config limit now world with
    | .error _ => world
    | .ok (_, after) => after

end Lanes

end TradingHarness.Xhs
