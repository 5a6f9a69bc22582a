import TradingHarness.Transfer.Schedule

set_option autoImplicit false

/-! # Exports and imports converge

Where every import covers what its cursor passes, an entry that became visible in time waits in front of the
window until it is imported, and so does the newest imported entry of a key until its columns are there. -/

namespace TradingHarness

variable (importer : Importer)

/-! ## The invariant -/

/-- What every step keeps. -/
structure TransferSound (state : TransferState) : Prop where
  positive : ∀ change ∈ state.journal.changes, 0 < change.sequence
  distinct : ∀ change ∈ state.journal.changes, (change.row.map Prod.fst).Nodup
  cursor : state.cursor = 0 ∨ ∃ change ∈ state.journal.changes, change.sequence = state.cursor
  exported : ∀ batch ∈ state.exported, PageOf state.journal batch
  imported : ∀ batch ∈ state.imported, batch ∈ state.exported
  settable : ∀ batch ∈ state.imported, ∀ change ∈ batch.rows, Settable change
  promised : ∀ change ∈ state.promised, change ∈ state.journal.changes
  waiting : ∀ change ∈ state.promised,
    Imported state change ∨ state.cursor < change.sequence + changeReplayWindow
  newest : ∀ change, Newest state change →
    HoldsChange state.target.tables change ∨ state.cursor < change.sequence + changeReplayWindow
  settled : ∀ batch, state.imported.head? = some batch → ReachesEnd state.journal batch →
    ∀ change, Newest state change → HoldsChange state.target.tables change

variable {state : TransferState}

theorem transferSound_start (h : TransferStart state) : TransferSound state := by
  have hnone : ∀ change, ¬ Imported state change := by
    rintro change ⟨batch, hbatch, -⟩
    rw [h.imported] at hbatch
    exact List.not_mem_nil hbatch
  refine ⟨h.positive, h.distinct, h.cursor, ?_, ?_, ?_, ?_, ?_, ?_, ?_⟩
  · simp [h.exported]
  · simp [h.imported]
  · simp [h.imported]
  · simp [h.promised]
  · simp [h.promised]
  · exact fun change hnewest => absurd hnewest.1 (hnone change)
  · exact fun batch _ _ change hnewest => absurd hnewest.1 (hnone change)

variable {next : TransferState}

theorem transferSound_commit (h : TransferSound state)
    (hstep : CommitStep state next) : TransferSound next := by
  obtain ⟨change, journal, hjournal, hpositive, hnodup, rfl⟩ := hstep
  have hold : ∀ other ∈ state.journal.changes, other ∈ journal.changes := by
    intro other hother
    rw [hjournal]
    exact List.mem_cons_of_mem _ hother
  have hpromised : ∀ other, other ∈ (if state.cursor < change.sequence + changeReplayWindow then
        change :: state.promised else state.promised) →
      (other = change ∧ state.cursor < change.sequence + changeReplayWindow) ∨ other ∈ state.promised := by
    intro other hother
    split_ifs at hother with htime
    · exact (List.mem_cons.mp hother).imp_left (fun heq => ⟨heq, htime⟩)
    · exact Or.inr hother
  refine ⟨?_, ?_, ?_, ?_, h.imported, h.settable, ?_, ?_, h.newest, ?_⟩
  · intro other hother
    rw [hjournal] at hother
    rcases List.mem_cons.mp hother with rfl | hother
    · exact hpositive
    · exact h.positive other hother
  · intro other hother
    rw [hjournal] at hother
    rcases List.mem_cons.mp hother with rfl | hother
    · exact hnodup
    · exact h.distinct other hother
  · rcases h.cursor with hzero | ⟨entry, hentry, hsequence⟩
    · exact Or.inl hzero
    · exact Or.inr ⟨entry, hold entry hentry, hsequence⟩
  · exact fun batch hbatch => (h.exported batch hbatch).mono hold
  · intro other hother
    rcases hpromised other hother with ⟨rfl, -⟩ | hother
    · rw [hjournal]
      exact List.mem_cons_self
    · exact hold other (h.promised other hother)
  · intro other hother
    rcases hpromised other hother with ⟨rfl, htime⟩ | hother
    · exact Or.inr htime
    · exact h.waiting other hother
  · intro batch hlast hend
    refine h.settled batch hlast (fun other hother => hend other (hold other hother))

theorem transferSound_export (h : TransferSound state) {batch : Batch}
    (hstep : ExportStep batch state next) : TransferSound next := by
  obtain ⟨hexport, rfl⟩ := hstep
  refine ⟨h.positive, h.distinct, h.cursor, ?_, ?_, h.settable, h.promised, h.waiting, h.newest, h.settled⟩
  · intro other hother
    rcases List.mem_cons.mp hother with rfl | hother
    · exact pageOf_export h.cursor hexport
    · exact h.exported other hother
  · exact fun other hother => List.mem_cons_of_mem _ (h.imported other hother)

/-! ## An import -/

variable {change : Change}

section Import

variable {batch : Batch} {target : Target} (hsound : TransferSound state) (hexported : batch ∈ state.exported)
  (hcovers : Covers state batch)
  (htables : target.tables = batch.rows.foldl (applyChange importer) state.target.tables)
  (hset : ∀ change ∈ batch.rows, Settable change)

theorem imported_cons (change : Change) :
    Imported { state with target := target, imported := batch :: state.imported } change ↔
      change ∈ batch.rows ∨ Imported state change := by
  unfold Imported
  simp only [List.mem_cons, exists_eq_or_imp]

include hsound in
theorem imported_mem_journal (h : Imported state change) :
    change ∈ state.journal.changes := by
  obtain ⟨page, hpage, hrow⟩ := h
  exact ((hsound.exported page (hsound.imported page hpage)).rows change hrow).1

include hsound hexported htables hset in
theorem holdsChange_of_mem (hmem : change ∈ batch.rows)
    (hnewest : Newest { state with target := target, imported := batch :: state.imported } change) :
    HoldsChange target.tables change := by
  rw [htables]
  refine holdsChange_foldl_newest importer _ batch.rows hset (hsound.exported batch hexported).sorted hmem ?_
  exact fun other hother hsame => hnewest.2 other ((imported_cons other).mpr (Or.inl hother)) hsame

include hsound htables hset in
theorem holdsChange_of_not_mem (hmem : change ∉ batch.rows)
    (hnewest : Newest { state with target := target, imported := batch :: state.imported } change)
    (hother : ∀ other ∈ batch.rows, ¬ SameKey other change) :
    HoldsChange target.tables change ∨ state.cursor < change.sequence + changeReplayWindow := by
  have hbefore : Imported state change :=
    ((imported_cons change).mp hnewest.1).resolve_left hmem
  have hnewestBefore : Newest state change :=
    ⟨hbefore, fun other himported hsame =>
      hnewest.2 other ((imported_cons other).mpr (Or.inr himported)) hsame⟩
  refine (hsound.newest change hnewestBefore).imp_left (fun hholds => ?_)
  rw [htables]
  exact holdsChange_foldl_of_others importer _ batch.rows hset hother hholds

include hsound hexported hcovers htables hset in
theorem transferSound_import {cursor : Cursor} (hcursor : target.cursor = some cursor)
    (hnext : cursor.sequence = batch.nextSequence) :
    TransferSound { state with target := target, imported := batch :: state.imported } := by
  have hpage := hsound.exported batch hexported
  have hmoved : TransferState.cursor { state with target := target, imported := batch :: state.imported }
      = batch.nextSequence := by
    unfold TransferState.cursor
    rw [hcursor]
    exact hnext
  have hfrom : ∀ change ∈ batch.rows, batch.requestedAfter < change.sequence + changeReplayWindow := by
    intro change hchange
    have hlt := (hpage.rows change hchange).2
    unfold replayFrom at hlt
    omega
  have hmin : ∀ sequence : ℕ, state.cursor < sequence + changeReplayWindow →
      min state.cursor batch.requestedAfter < sequence + changeReplayWindow :=
    fun sequence hlt => lt_of_le_of_lt (min_le_left _ _) hlt
  refine ⟨hsound.positive, hsound.distinct, ?_, hsound.exported, ?_, ?_, hsound.promised, ?_, ?_, ?_⟩
  · rw [hmoved]
    exact hpage.next
  · intro other hother
    rcases List.mem_cons.mp hother with rfl | hother
    · exact hexported
    · exact hsound.imported other hother
  · intro other hother
    rcases List.mem_cons.mp hother with rfl | hother
    · exact hset
    · exact hsound.settable other hother
  · intro change hchange
    rw [hmoved, imported_cons]
    rcases hsound.waiting change hchange with himported | hwaits
    · exact Or.inl (Or.inr himported)
    · by_cases hpassed : change.sequence + changeReplayWindow ≤ batch.nextSequence
      · exact Or.inl (Or.inl (hcovers change (hsound.promised change hchange)
          (hmin change.sequence hwaits) hpassed))
      · exact Or.inr (by omega)
  · intro change hnewest
    rw [hmoved]
    by_cases hmem : change ∈ batch.rows
    · exact Or.inl (holdsChange_of_mem importer hsound hexported htables hset hmem hnewest)
    by_cases hpassed : change.sequence + changeReplayWindow ≤ batch.nextSequence
    · have hjournal := imported_mem_journal hsound (((imported_cons change).mp hnewest.1).resolve_left hmem)
      -- a row of this key is older, so the page would hold this entry too
      have hother : ∀ other ∈ batch.rows, ¬ SameKey other change := by
        intro other hrow hsame
        have hle := hnewest.2 other ((imported_cons other).mpr (Or.inl hrow)) hsame
        have hlt := hfrom other hrow
        have hright := min_le_right state.cursor batch.requestedAfter
        exact hmem (hcovers change hjournal (by omega) hpassed)
      rcases holdsChange_of_not_mem importer hsound htables hset hmem hnewest hother with hholds | hwaits
      · exact Or.inl hholds
      · exact absurd (hcovers change hjournal (hmin change.sequence hwaits) hpassed) hmem
    · exact Or.inr (by omega)
  · intro last hlast hend change hnewest
    obtain rfl : batch = last := Option.some.inj hlast
    by_cases hmem : change ∈ batch.rows
    · exact holdsChange_of_mem importer hsound hexported htables hset hmem hnewest
    have hjournal := imported_mem_journal hsound (((imported_cons change).mp hnewest.1).resolve_left hmem)
    have hbehind : change.sequence + changeReplayWindow ≤ batch.requestedAfter := by
      have hle : ¬ replayFrom batch.requestedAfter < change.sequence :=
        fun hlt => hmem (hend change hjournal hlt)
      have hpositive := hsound.positive change hjournal
      unfold replayFrom at hle
      omega
    have hother : ∀ other ∈ batch.rows, ¬ SameKey other change := by
      intro other hrow hsame
      have hle := hnewest.2 other ((imported_cons other).mpr (Or.inl hrow)) hsame
      have hlt := hfrom other hrow
      omega
    rcases holdsChange_of_not_mem importer hsound htables hset hmem hnewest hother with hholds | hwaits
    · exact hholds
    · exact absurd (hcovers change hjournal (hmin change.sequence hwaits)
        (le_trans hbehind hpage.le_next)) hmem

end Import

/-! ## Runs -/

theorem transferSound_importStep (hsound : TransferSound state) {batch : Batch}
    (hstep : ImportStep importer Covers batch state next) : TransferSound next := by
  obtain ⟨hexported, -, hcovers, report, lines, now, cursor, target, hlines, himport, rfl⟩ := hstep
  obtain ⟨htables, hcursor, hnext, hvalid⟩ := import_batch importer now report batch hlines himport
  have hpage := hsound.exported batch hexported
  refine transferSound_import importer hsound hexported hcovers htables (fun change hchange => ?_) hcursor
    hnext
  obtain ⟨table, htable⟩ := Option.isSome_iff_exists.mp (hpage.known change hchange)
  exact ⟨hsound.distinct change (hpage.rows change hchange).1, table, htable,
    hvalid change hchange table htable⟩

theorem transferSound_step (hsound : TransferSound state)
    (hstep : TransferStep importer Covers state next) : TransferSound next := by
  cases hstep with
  | commit h => exact transferSound_commit hsound h
  | exportPage batch h => exact transferSound_export hsound h
  | importPage batch h => exact transferSound_importStep importer hsound h

theorem transferSound_run {start : TransferState} (hstart : TransferStart start)
    (hrun : Relation.ReflTransGen (TransferStep importer Covers) start state) : TransferSound state := by
  induction hrun with
  | refl => exact transferSound_start hstart
  | tail _ hstep ih => exact transferSound_step importer ih hstep

/-! ## Pulls -/

theorem commits_keep (hcommits : Relation.ReflTransGen CommitStep state next) :
    next.cursor = state.cursor ∧ next.imported = state.imported ∧
      ∀ change ∈ state.journal.changes, change ∈ next.journal.changes := by
  induction hcommits with
  | refl => exact ⟨rfl, rfl, fun _ h => h⟩
  | tail _ hstep ih =>
      obtain ⟨change, journal, hjournal, -, -, rfl⟩ := hstep
      refine ⟨ih.1, ih.2.1, fun other hother => ?_⟩
      rw [hjournal]
      exact List.mem_cons_of_mem _ (ih.2.2 other hother)

theorem transferSound_commits (hsound : TransferSound state)
    (hcommits : Relation.ReflTransGen CommitStep state next) : TransferSound next := by
  induction hcommits with
  | refl => exact hsound
  | tail _ hstep ih => exact transferSound_commit ih hstep

theorem transferSound_pull (hsound : TransferSound state)
    (hpull : Pull importer Covers state next) : TransferSound next := by
  obtain ⟨batch, sent, ready, hexport, hcommits, himport⟩ := hpull
  exact transferSound_importStep importer
    (transferSound_commits (transferSound_export hsound hexport) hcommits) himport

variable {allowed : TransferState → Batch → Prop}

section

variable (hpull : Pull importer allowed state next)

include hpull

theorem pull_ends :
    ∃ batch, exportChanges state.journal state.cursor changePageSize = .ok batch ∧
      next.cursor = batch.nextSequence ∧ next.imported = batch :: state.imported ∧
      ∀ change ∈ state.journal.changes, change ∈ next.journal.changes := by
  obtain ⟨batch, sent, ready, ⟨hexport, rfl⟩, hcommits, himport⟩ := hpull
  obtain ⟨-, -, -, report, lines, now, cursor, target, hlines, himport, rfl⟩ := himport
  obtain ⟨-, himported, hjournal⟩ := commits_keep hcommits
  obtain ⟨-, hcursor, hnext, -⟩ := import_batch importer now report batch hlines himport
  refine ⟨batch, hexport, ?_, congrArg (batch :: ·) himported, hjournal⟩
  unfold TransferState.cursor
  rw [hcursor]
  exact hnext

theorem imported_of_pull (h : Imported state change) :
    Imported next change := by
  obtain ⟨batch, -, -, himported, -⟩ := pull_ends importer hpull
  obtain ⟨page, hpage, hrow⟩ := h
  refine ⟨page, ?_, hrow⟩
  rw [himported]
  exact List.mem_cons_of_mem _ hpage

theorem pull_nearer (hchange : change ∈ state.journal.changes)
    (hpositive : 0 < change.sequence) (hwaits : state.cursor < change.sequence + changeReplayWindow) :
    Imported next change ∨ (state.cursor < next.cursor ∧ next.cursor < change.sequence) := by
  obtain ⟨batch, hexport, hcursor, himported, -⟩ := pull_ends importer hpull
  obtain ⟨-, hrows, hnext, -⟩ := exportChanges_ok state.journal state.cursor changePageSize hexport
  have hfrom : replayFrom state.cursor < change.sequence := by
    unfold replayFrom
    omega
  by_cases hmem : change ∈ pageRows state.journal state.cursor changePageSize
  · refine Or.inl ⟨batch, ?_, ?_⟩
    · rw [himported]
      exact List.mem_cons_self
    · rw [hrows]
      exact hmem
  · -- a page without the entry is full, and all its rows are older
    have hfull : (windowRows state.journal state.cursor).length
        < (pageRows state.journal state.cursor changePageSize).length := by
      by_contra hshort
      have hroom := window_lt_page state.journal state.cursor
      exact hmem (mem_page_of_short state.journal state.cursor changePageSize (by omega) hchange hfrom)
    have holder : ∀ row ∈ pageRows state.journal state.cursor changePageSize,
        row.sequence < change.sequence := by
      intro row hrow
      rcases Nat.lt_trichotomy row.sequence change.sequence with hlt | heq | hgt
      · exact hlt
      · have hjournal := (mem_of_mem_page state.journal state.cursor changePageSize hrow).1
        rw [Journal.eq_of_sequence hjournal hchange heq] at hrow
        exact absurd hrow hmem
      · exact absurd (mem_page_of_lt state.journal state.cursor changePageSize hrow hchange hfrom hgt) hmem
    obtain ⟨newer, hnewer, hlt⟩ := newer_row_of_length state.journal state.cursor changePageSize hfull
    rw [hcursor, hnext, hrows]
    refine Or.inr ⟨lt_of_lt_of_le hlt (le_lastSequence state.cursor hnewer), ?_⟩
    rcases lastSequence_cases state.cursor (pageRows state.journal state.cursor changePageSize) with
      ⟨hempty, -⟩ | ⟨row, hrow, hlast⟩
    · rw [hempty] at hnewer
      exact absurd hnewer List.not_mem_nil
    · rw [← hlast]
      exact holder row hrow

end

/-- Pulls import a waiting entry, or each moves the cursor while it stays before the entry. -/
theorem pulls_nearer (hsound : TransferSound state)
    (hchange : change ∈ state.journal.changes)
    (hwaits : Imported state change ∨ state.cursor < change.sequence + changeReplayWindow) {count : ℕ}
    (hpulls : Pulls importer Covers state count next) :
    TransferSound next ∧ change ∈ next.journal.changes ∧
      (Imported next change ∨ (count ≤ next.cursor ∧ next.cursor < change.sequence + changeReplayWindow ∧
        (0 < count → next.cursor < change.sequence))) := by
  induction hpulls with
  | zero => exact ⟨hsound, hchange, hwaits.imp_right (fun hlt => ⟨Nat.zero_le _, hlt, by omega⟩)⟩
  | succ count middle next _ hpull ih =>
      obtain ⟨hmiddle, hjournal, hcases⟩ := ih
      obtain ⟨-, -, -, -, hgrows⟩ := pull_ends importer hpull
      refine ⟨transferSound_pull importer hmiddle hpull, hgrows change hjournal, ?_⟩
      rcases hcases with himported | ⟨hcount, hbefore, -⟩
      · exact Or.inl (imported_of_pull importer hpull himported)
      · refine (pull_nearer importer hpull hjournal (hmiddle.positive change hjournal) hbefore).imp_right ?_
        rintro ⟨hmoved, hlt⟩
        exact ⟨by omega, by omega, fun _ => hlt⟩

theorem covers_of_export (hsound : TransferSound state) {batch : Batch}
    (hexport : exportChanges state.journal state.cursor changePageSize = .ok batch) : Covers state batch := by
  obtain ⟨hrequested, hrows, hnext, -⟩ := exportChanges_ok state.journal state.cursor changePageSize hexport
  intro change hchange hbehind hpassed
  rw [hrequested, min_self] at hbehind
  have hpositive := hsound.positive change hchange
  have hfrom : replayFrom state.cursor < change.sequence := by
    unfold replayFrom
    omega
  rw [hrows]
  rcases lastSequence_cases state.cursor batch.rows with ⟨-, hlast⟩ | ⟨row, hrow, hlast⟩
  · omega
  · rw [hrows] at hrow
    refine mem_page_of_lt state.journal state.cursor changePageSize hrow hchange hfrom ?_
    unfold changeReplayWindow at hpassed
    omega

/-- **Where every import covers what its cursor passes**, an entry that became visible in time is imported or
    still in front of the window, it is imported once enough pulls have followed, and behind an import that
    reaches the end the tables hold the newest imported columns of every key. -/
theorem transfer_converges {start state : TransferState} (hstart : TransferStart start)
    (hrun : Relation.ReflTransGen (TransferStep importer Covers) start state) :
    (∀ change ∈ state.promised,
      Imported state change ∨ state.cursor < change.sequence + changeReplayWindow) ∧
    (∀ change ∈ state.promised, ∀ count next, change.sequence ≤ count →
      Pulls importer Covers state count next → Imported next change) ∧
    ∀ batch, state.imported.head? = some batch → ReachesEnd state.journal batch →
      ∀ change, Newest state change → HoldsChange state.target.tables change := by
  have hsound := transferSound_run importer hstart hrun
  refine ⟨hsound.waiting, ?_, hsound.settled⟩
  intro change hpromised count next hcount hpulls
  have hjournal := hsound.promised change hpromised
  have hpositive := hsound.positive change hjournal
  obtain ⟨-, -, hcases⟩ := pulls_nearer importer hsound hjournal (hsound.waiting change hpromised) hpulls
  rcases hcases with himported | ⟨hle, -, hlt⟩
  · exact himported
  · have hbefore := hlt (by omega)
    omega

/-! ## An entry that is committed while its page is on the way -/

/-- Everything the run has exported and will import ends a window or more behind the entry. -/
structure Passed (change : Change) (state : TransferState) : Prop where
  cursor : change.sequence + changeReplayWindow ≤ state.cursor
  known : ∃ entry ∈ state.journal.changes, entry.sequence = state.cursor
  exported : ∀ batch ∈ state.exported, change ∉ batch.rows ∧
    change.sequence + changeReplayWindow ≤ batch.nextSequence ∧
    ∃ entry ∈ state.journal.changes, entry.sequence = batch.nextSequence
  imported : ∀ batch ∈ state.imported, batch ∈ state.exported

theorem passed_step (h : Passed change state) (hstep : TransferStep importer allowed state next) : Passed change next := by
  cases hstep with
  | commit hcommit =>
      obtain ⟨other, journal, hjournal, -, -, rfl⟩ := hcommit
      have hold : ∀ sequence, (∃ entry ∈ state.journal.changes, entry.sequence = sequence) →
          ∃ entry ∈ journal.changes, entry.sequence = sequence := by
        rintro sequence ⟨entry, hentry, hsequence⟩
        rw [hjournal]
        exact ⟨entry, List.mem_cons_of_mem _ hentry, hsequence⟩
      exact ⟨h.cursor, hold _ h.known, fun batch hbatch =>
        ⟨(h.exported batch hbatch).1, (h.exported batch hbatch).2.1, hold _ (h.exported batch hbatch).2.2⟩,
        h.imported⟩
  | exportPage batch hexport =>
      obtain ⟨hpage, rfl⟩ := hexport
      have hof := pageOf_export (Or.inr h.known) hpage
      have hrequested := (exportChanges_ok state.journal state.cursor changePageSize hpage).1
      have hcursor := h.cursor
      have hle := hof.le_next
      rw [hrequested] at hle
      have hwindow : 0 < changeReplayWindow := by decide
      refine ⟨hcursor, h.known, ?_, fun other hother => List.mem_cons_of_mem _ (h.imported other hother)⟩
      intro other hother
      rcases List.mem_cons.mp hother with rfl | hother
      · refine ⟨fun hmem => ?_, by omega, hof.next.resolve_left (by omega)⟩
        have hlt := (hof.rows change hmem).2
        rw [hrequested] at hlt
        unfold replayFrom at hlt
        omega
      · exact h.exported other hother
  | importPage batch himport =>
      obtain ⟨hexported, -, -, report, lines, now, cursor, target, hlines, himport, rfl⟩ := himport
      obtain ⟨-, hcursor, hnext, -⟩ := import_batch importer now report batch hlines himport
      obtain ⟨-, hle, hentry⟩ := h.exported batch hexported
      have hmoved : TransferState.cursor { state with target := target, imported := batch :: state.imported }
          = batch.nextSequence := by
        unfold TransferState.cursor
        rw [hcursor]
        exact hnext
      refine ⟨by rw [hmoved]; exact hle, by rw [hmoved]; exact hentry, h.exported, ?_⟩
      intro other hother
      rcases List.mem_cons.mp hother with rfl | hother
      · exact hexported
      · exact h.imported other hother

theorem passed_never_imported (h : Passed change state)
    (hrun : Relation.ReflTransGen (TransferStep importer allowed) state next) : ¬ Imported next change := by
  have hpassed : Passed change next := by
    induction hrun with
    | refl => exact h
    | tail _ hstep ih => exact passed_step importer ih hstep
  rintro ⟨batch, hbatch, hmem⟩
  exact (hpassed.exported batch (hpassed.imported batch hbatch)).1 hmem

def scanRow (scan : String) : Columns := [field "scan_id" (textValue scan)]

/-- An entry that is committed late, and the one that is visible before it. -/
def lateChange : Change := ⟨1, "intraday_scan_runs", scanRow "a"⟩

def firstChange : Change := ⟨1001, "intraday_scan_runs", scanRow "b"⟩

def emptyTransfer : TransferState where
  journal := ⟨[], List.nodup_nil⟩
  target := emptyTarget
  exported := []
  imported := []
  promised := []

/-- The page of the first entry. -/
def firstBatch : Batch where
  requestedAfter := 0
  rows := [firstChange]
  nextSequence := 1001
  remoteSequence := 1001
  hasMore := false

def plainReport : Report where
  checkpoint := "2026-10-16T07:30:01+00:00".toList
  remoteLatestChangedAt := nullWord
  edgeRuntime := []
  recordKey := fun _ => nullWord

def firstLines : List (List Char) :=
  (batchItems plainReport firstBatch).map (fun item => JsonText.dumps (.obj item))

theorem emptyTransfer_start : TransferStart emptyTransfer := by
  refine ⟨rfl, rfl, rfl, ?_, ?_, Or.inl rfl⟩ <;> exact fun change hchange => absurd hchange List.not_mem_nil

theorem firstLines_carry :
    List.Forall₂ (Carries plainImporter) firstLines (batchItems plainReport firstBatch) := by
  have hvalues : ∀ item ∈ batchItems plainReport firstBatch, JsonText.isValue (.obj item) = true := by
    decide +kernel
  unfold firstLines
  rw [List.forall₂_map_left_iff, List.forall₂_same]
  exact fun item hitem => carries_dumps plainImporter (hvalues item hitem) rfl

theorem exists_of_isOk {α β : Type} {result : Except String α × β} (h : result.1.isOk = true) :
    ∃ value, result = (.ok value, result.2) := by
  obtain ⟨error | value, rest⟩ := result
  · exact absurd h (by simp [Except.isOk, Except.toBool])
  · exact ⟨value, rfl⟩

theorem firstImport :
    ∃ cursor target, importJsonl plainImporter 0 emptyTarget firstLines = (.ok cursor, target) := by
  have hok : (finishImport emptyTarget ((batchItems plainReport firstBatch).foldlM
      (importItem plainImporter 0) { tables := emptyTarget.tables })).1.isOk = true := by
    decide +kernel
  obtain ⟨cursor, hresult⟩ := exists_of_isOk hok
  unfold importJsonl
  rw [foldlM_carries plainImporter 0 firstLines_carry]
  exact ⟨cursor, _, hresult⟩

/-! The first entry is committed and its page exported, the late entry is committed, and the page is
imported. -/

def firstCommitted : TransferState :=
  { emptyTransfer with journal := ⟨[firstChange], by decide⟩, promised := [firstChange] }

def firstExported : TransferState := { firstCommitted with exported := [firstBatch] }

def lateCommitted : TransferState :=
  { firstExported with
    journal := ⟨[lateChange, firstChange], by decide⟩
    promised := [lateChange, firstChange] }

def firstImported (before : TransferState) (target : Target) : TransferState :=
  { before with target := target, imported := [firstBatch] }

section

variable (allowed : TransferState → Batch → Prop)

theorem firstExported_reached :
    Relation.ReflTransGen (TransferStep plainImporter allowed) emptyTransfer firstExported := by
  have hcommit : CommitStep emptyTransfer firstCommitted := by
    refine ⟨firstChange, firstCommitted.journal, rfl, by decide, by decide, ?_⟩
    rw [if_pos (by decide)]
    rfl
  have hexport : ExportStep firstBatch firstCommitted firstExported := ⟨rfl, rfl⟩
  exact (Relation.ReflTransGen.single (.commit hcommit)).tail (.exportPage firstBatch hexport)

theorem lateCommitted_reached :
    Relation.ReflTransGen (TransferStep plainImporter allowed) emptyTransfer lateCommitted := by
  have hcommit : CommitStep firstExported lateCommitted := by
    refine ⟨lateChange, lateCommitted.journal, rfl, by decide, by decide, ?_⟩
    rw [if_pos (by decide)]
    rfl
  exact (firstExported_reached allowed).tail (.commit hcommit)

theorem firstImport_step (before : TransferState) {cursor : Cursor}
    {target : Target} (hbefore : before.target = emptyTarget) (hexported : before.exported = [firstBatch])
    (himported : before.imported = []) (hallowed : allowed before firstBatch)
    (himport : importJsonl plainImporter 0 emptyTarget firstLines = (.ok cursor, target)) :
    ImportStep plainImporter allowed firstBatch before (firstImported before target) := by
  refine ⟨by rw [hexported]; exact List.mem_singleton.mpr rfl, Or.inl ?_, hallowed, plainReport, firstLines, 0,
    cursor, target, firstLines_carry, by rw [hbefore]; exact himport, by rw [himported]; rfl⟩
  unfold TransferState.cursor
  rw [hbefore]
  rfl

end

/-- Without the late entry the tables hold the first one behind its import. -/
theorem transfer_converges_firstPage :
    ∃ state, Relation.ReflTransGen (TransferStep plainImporter Covers) emptyTransfer state ∧
      Imported state firstChange ∧ HoldsChange state.target.tables firstChange := by
  obtain ⟨cursor, target, himport⟩ := firstImport
  have hsound := transferSound_run plainImporter emptyTransfer_start (firstExported_reached Covers)
  have hcovers : Covers firstExported firstBatch := covers_of_export hsound rfl
  have hrun := (firstExported_reached Covers).tail
    (.importPage firstBatch (firstImport_step Covers firstExported rfl rfl rfl hcovers himport))
  have hmem : Imported (firstImported firstExported target) firstChange :=
    ⟨firstBatch, List.mem_singleton.mpr rfl, List.mem_singleton.mpr rfl⟩
  obtain ⟨-, -, hsettled⟩ := transfer_converges plainImporter emptyTransfer_start hrun
  refine ⟨_, hrun, hmem, hsettled firstBatch rfl (fun change hchange _ => hchange) firstChange ⟨hmem, ?_⟩⟩
  rintro other ⟨batch, hbatch, hother⟩ -
  obtain rfl := List.mem_singleton.mp hbatch
  rw [List.mem_singleton.mp hother]

/-- The late entry became visible while the cursor was not ahead of it, and no run goes on to import it. -/
theorem late_entry_is_skipped :
    ∃ state, Relation.ReflTransGen (TransferStep plainImporter (fun _ _ => True)) emptyTransfer state ∧
      lateChange ∈ state.promised ∧
      ∀ next, Relation.ReflTransGen (TransferStep plainImporter (fun _ _ => True)) state next →
        ¬ Imported next lateChange := by
  obtain ⟨cursor, target, himport⟩ := firstImport
  have hstep := firstImport_step (fun _ _ => True) lateCommitted rfl rfl rfl trivial himport
  refine ⟨_, (lateCommitted_reached _).tail (.importPage firstBatch hstep), List.mem_cons_self, ?_⟩
  intro next hrun
  refine passed_never_imported plainImporter ?_ hrun
  obtain ⟨-, hcursor, hnext, -⟩ := import_batch plainImporter 0 plainReport firstBatch firstLines_carry himport
  have hmoved : (firstImported lateCommitted target).cursor = 1001 := by
    unfold TransferState.cursor firstImported
    rw [hcursor]
    exact hnext
  have hentry : ∃ entry ∈ (firstImported lateCommitted target).journal.changes, entry.sequence = 1001 :=
    ⟨firstChange, List.mem_cons_of_mem _ List.mem_cons_self, rfl⟩
  refine ⟨by rw [hmoved]; decide, by rw [hmoved]; exact hentry, ?_, fun batch hbatch => hbatch⟩
  intro batch hbatch
  obtain rfl := List.mem_singleton.mp hbatch
  refine ⟨fun hmem => ?_, by decide, hentry⟩
  have heq := congrArg Change.sequence (List.mem_singleton.mp hmem)
  exact absurd heq (by decide)

end TradingHarness
