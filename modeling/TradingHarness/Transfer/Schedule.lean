import Mathlib.Logic.Relation
import Mathlib.Order.Interval.Finset.Nat
import TradingHarness.Transfer.Progress
import TradingHarness.Transfer.Upserts

set_option autoImplicit false

/-! # Schedules of exports and imports

Entries become visible in any order, pages are exported behind the cursor, and a page is imported at the
cursor it was asked for, or again at any later time. -/

namespace TradingHarness

variable (importer : Importer)

/-! ## The system -/

/-- The journal at the edge, the tables and the cursor of the workstation, and what the run has done: the pages
    exported and those imported, the last one first, and the entries that became visible in time. -/
structure TransferState where
  journal : Journal
  target : Target
  exported : List Batch
  imported : List Batch
  promised : List Change

variable (allowed : TransferState → Batch → Prop) (batch : Batch) (state next : TransferState)

/-- The sequence of `read_cursor_payload`. -/
def TransferState.cursor : ℕ :=
  match state.target.cursor with
  | some cursor => cursor.sequence
  | none => 0

/-- An entry becomes visible. Its sequence number was assigned before, so entries come in any order. -/
def CommitStep : Prop :=
  ∃ (change : Change) (journal : Journal), journal.changes = change :: state.journal.changes ∧
    0 < change.sequence ∧ (change.row.map Prod.fst).Nodup ∧
    next = { state with
      journal := journal
      promised :=
        if state.cursor < change.sequence + changeReplayWindow then change :: state.promised
        else state.promised }

/-- A page of the default size is exported behind the cursor. -/
def ExportStep : Prop :=
  exportChanges state.journal state.cursor changePageSize = .ok batch ∧
    next = { state with exported := batch :: state.exported }

/-- A page is imported at the cursor it was exported behind, or once more. -/
def ImportStep : Prop :=
  batch ∈ state.exported ∧ (batch.requestedAfter = state.cursor ∨ batch ∈ state.imported) ∧
    allowed state batch ∧
    ∃ (report : Report) (lines : List (List Char)) (now : ℤ) (cursor : Cursor) (target : Target),
      List.Forall₂ (Carries importer) lines (batchItems report batch) ∧
        importJsonl importer now state.target lines = (.ok cursor, target) ∧
        next = { state with target := target, imported := batch :: state.imported }

/-- The steps, with a condition on the imports. -/
inductive TransferStep (allowed : TransferState → Batch → Prop) (state next : TransferState) : Prop
  | commit (h : CommitStep state next)
  | exportPage (batch : Batch) (h : ExportStep batch state next)
  | importPage (batch : Batch) (h : ImportStep importer allowed batch state next)

/-- An export, the commits meanwhile, and the import of the page. -/
def Pull : Prop :=
  ∃ batch sent ready, ExportStep batch state sent ∧ Relation.ReflTransGen CommitStep sent ready ∧
    ImportStep importer allowed batch ready next

/-- Pulls in a row. -/
inductive Pulls (allowed : TransferState → Batch → Prop) (state : TransferState) : ℕ → TransferState → Prop
  | zero : Pulls allowed state 0 state
  | succ (count : ℕ) (middle next : TransferState) (before : Pulls allowed state count middle)
      (last : Pull importer allowed middle next) : Pulls allowed state (count + 1) next

/-- Before the first export. A cursor is that of an entry. -/
structure TransferStart (state : TransferState) : Prop where
  exported : state.exported = []
  imported : state.imported = []
  promised : state.promised = []
  positive : ∀ change ∈ state.journal.changes, 0 < change.sequence
  distinct : ∀ change ∈ state.journal.changes, (change.row.map Prod.fst).Nodup
  cursor : state.cursor = 0 ∨ ∃ change ∈ state.journal.changes, change.sequence = state.cursor

/-- Every entry that the import leaves a window or more behind its cursor is in the page, but for those a
    window or more behind both the cursor that is there and the one the page was asked for. -/
def Covers (batch : Batch) : Prop :=
  ∀ change ∈ state.journal.changes,
    min state.cursor batch.requestedAfter < change.sequence + changeReplayWindow →
      change.sequence + changeReplayWindow ≤ batch.nextSequence → change ∈ batch.rows

def Imported (change : Change) : Prop :=
  ∃ batch ∈ state.imported, change ∈ batch.rows

/-- The highest sequence of its key that has been imported. -/
def Newest (change : Change) : Prop :=
  Imported state change ∧
    ∀ other, Imported state other → SameKey other change → other.sequence ≤ change.sequence

/-- The page holds every entry behind its start. -/
def ReachesEnd (journal : Journal) (batch : Batch) : Prop :=
  ∀ change ∈ journal.changes, replayFrom batch.requestedAfter < change.sequence → change ∈ batch.rows

/-! ## Pages of the default size -/

/-- What a page keeps from the journal it was exported from. -/
structure PageOf (journal : Journal) (batch : Batch) : Prop where
  rows : ∀ change ∈ batch.rows, change ∈ journal.changes ∧ replayFrom batch.requestedAfter < change.sequence
  known : ∀ change ∈ batch.rows, (tableNamed change.table).isSome = true
  sorted : batch.rows.Pairwise (fun first second => first.sequence < second.sequence)
  le_next : batch.requestedAfter ≤ batch.nextSequence
  next : batch.nextSequence = 0 ∨ ∃ change ∈ journal.changes, change.sequence = batch.nextSequence

variable (journal : Journal) (requestedAfter : ℕ)

theorem pageRows_sorted (limit : ℤ) :
    (pageRows journal requestedAfter limit).Pairwise
      (fun first second => first.sequence < second.sequence) := by
  have hsorted : (pageRows journal requestedAfter limit).Pairwise sequenceLe :=
    (List.pairwise_insertionSort sequenceLe _).sublist (List.take_sublist _ _)
  refine (hsorted.and (page_nodup journal requestedAfter limit)).imp_of_mem ?_
  rintro first second hfirst hsecond ⟨hle, hne⟩
  refine lt_of_le_of_ne hle (fun heq => hne ?_)
  exact Journal.eq_of_sequence (mem_of_mem_page journal requestedAfter limit hfirst).1
    (mem_of_mem_page journal requestedAfter limit hsecond).1 heq

theorem length_windowRows_le :
    (windowRows journal requestedAfter).length ≤ changeReplayWindow := by
  have hnodup : ((windowRows journal requestedAfter).map Change.sequence).Nodup :=
    journal.nodup.sublist (List.Sublist.map _ List.filter_sublist)
  have hsubset : ((windowRows journal requestedAfter).map Change.sequence).toFinset
      ⊆ Finset.Ioc (replayFrom requestedAfter) requestedAfter := by
    intro sequence hsequence
    obtain ⟨change, hchange, rfl⟩ := List.mem_map.mp (List.mem_toFinset.mp hsequence)
    obtain ⟨-, hfrom, hle⟩ := (mem_windowRows journal requestedAfter).mp hchange
    exact Finset.mem_Ioc.mpr ⟨hfrom, hle⟩
  have hcard := Finset.card_le_card hsubset
  rw [List.toFinset_card_of_nodup hnodup, List.length_map, Nat.card_Ioc] at hcard
  refine le_trans hcard ?_
  unfold replayFrom
  omega

theorem boundedLimit_default : boundedLimit changePageSize = changePageSize := by decide

theorem window_lt_page :
    (windowRows journal requestedAfter).length < boundedLimit changePageSize := by
  have hle := length_windowRows_le journal requestedAfter
  rw [boundedLimit_default]
  unfold changeReplayWindow at hle
  unfold changePageSize
  omega

theorem exportChanges_known {journal : Journal} {requestedAfter : ℕ} {limit : ℤ} {batch : Batch}
    (h : exportChanges journal requestedAfter limit = .ok batch) :
    ∀ change ∈ batch.rows, (tableNamed change.table).isSome = true := by
  intro change hchange
  rw [(exportChanges_ok journal requestedAfter limit h).2.1] at hchange
  unfold exportChanges at h
  dsimp only at h
  split at h
  · exact absurd h (by simp)
  next hnone =>
    have hknown := List.find?_eq_none.mp hnone change hchange
    rcases htable : tableNamed change.table with _ | table
    · rw [htable] at hknown
      exact absurd rfl hknown
    · rfl

theorem pageOf_export {journal : Journal} {requestedAfter : ℕ} {batch : Batch}
    (hcursor : requestedAfter = 0 ∨ ∃ change ∈ journal.changes, change.sequence = requestedAfter)
    (h : exportChanges journal requestedAfter changePageSize = .ok batch) : PageOf journal batch := by
  obtain ⟨hrequested, hrows, hnext, -⟩ := exportChanges_ok journal requestedAfter changePageSize h
  refine ⟨?_, exportChanges_known h, ?_, ?_, ?_⟩
  · intro change hchange
    rw [hrequested]
    rw [hrows] at hchange
    exact mem_of_mem_page journal requestedAfter changePageSize hchange
  · rw [hrows]
    exact pageRows_sorted journal requestedAfter changePageSize
  · rw [hrequested]
    rcases hcursor with rfl | hentry
    · exact Nat.zero_le _
    · refine ((advances_iff journal requestedAfter changePageSize h).mpr ?_).1
      have hroom := window_lt_page journal requestedAfter
      unfold HasRoom
      split
      · exact hroom
      · exact Or.inr ⟨hentry, by omega⟩
  · rw [hnext]
    rcases lastSequence_cases requestedAfter batch.rows with ⟨-, hlast⟩ | ⟨row, hrow, hlast⟩
    · rw [hlast]
      exact hcursor
    · rw [hrows] at hrow
      exact Or.inr ⟨row, (mem_of_mem_page journal requestedAfter changePageSize hrow).1, hlast⟩

theorem PageOf.mono {journal larger : Journal} {batch : Batch} (h : PageOf journal batch)
    (hsubset : ∀ change ∈ journal.changes, change ∈ larger.changes) : PageOf larger batch := by
  refine ⟨fun change hchange => ⟨hsubset change (h.rows change hchange).1, (h.rows change hchange).2⟩,
    h.known, h.sorted, h.le_next, h.next.imp_right ?_⟩
  rintro ⟨change, hchange, hsequence⟩
  exact ⟨change, hsubset change hchange, hsequence⟩

end TradingHarness
