import Mathlib.Data.List.Induction
import TradingHarness.Candidates.DailyLedger

set_option autoImplicit false

/-! # Does the ledger follow its sources

A run of the ledger writes what its sources propose and removes nothing. Its rows for a date are those of a run on an
empty ledger exactly where all that it held for the date is still proposed. -/

namespace TradingHarness.Candidates

/-! ## What is written -/

/-- The row that a run writes last under a key. -/
def written (now : Timestamp) (rows : List CandidateRow) (key : StrategyKey × Date × String) : Option LedgerRow :=
  rows.foldl (fun found row => if row.key = key then some ⟨row, now⟩ else found) none

/-- Each row names the table of its strategy. -/
def TablesFit (rows : List CandidateRow) : Prop := ∀ row ∈ rows, row.sourceTable = row.strategyKey.sourceTable

variable {now : Timestamp} {rows : List CandidateRow} {ledger : List LedgerRow} {key : StrategyKey × Date × String}

theorem foldl_written (now : Timestamp) (rows : List CandidateRow) (found : Option LedgerRow) :
    rows.foldl (fun found row => if row.key = key then some ⟨row, now⟩ else found) found = (written now rows key).or found := by
  induction rows generalizing found with
  | nil => rfl
  | cons row rest ih =>
      unfold written
      rw [List.foldl_cons, List.foldl_cons, ih, ih]
      by_cases hkey : row.key = key
      · rw [if_pos hkey, if_pos hkey, Option.or_assoc]
        rfl
      · rw [if_neg hkey, if_neg hkey, Option.or_none]

theorem written_cons (row : CandidateRow) (rest : List CandidateRow) :
    written now (row :: rest) key = (written now rest key).or (if row.key = key then some ⟨row, now⟩ else none) := by
  rw [← foldl_written now rest (if row.key = key then some ⟨row, now⟩ else none)]
  rfl

theorem written_eq_none : written now rows key = none ↔ ∀ row ∈ rows, row.key ≠ key := by
  induction rows with
  | nil => simp [written]
  | cons row rest ih =>
      rw [written_cons, Option.or_eq_none_iff, ih, List.forall_mem_cons]
      by_cases hkey : row.key = key
      · simp [hkey]
      · simp [hkey]

/-! ## The ledger behind a run -/

theorem withCandidate_eq {row : CandidateRow} {stored : LedgerRow} (hkey : stored.key = row.key)
    (htable : stored.row.sourceTable = row.sourceTable) : withCandidate now row stored = ⟨row, now⟩ := by
  obtain ⟨hstrategy, hdate⟩ := Prod.mk.inj hkey
  obtain ⟨hdate, hsymbol⟩ := Prod.mk.inj hdate
  unfold withCandidate
  dsimp only
  rw [hstrategy, hdate, hsymbol, htable]

theorem find_upsertCandidate {row : CandidateRow} (hrow : row.sourceTable = row.strategyKey.sourceTable)
    (hledger : TablesFit (ledger.map LedgerRow.row)) :
    Keyed.find LedgerRow.key key (upsertCandidate now ledger row) =
      if row.key = key then some ⟨row, now⟩ else Keyed.find LedgerRow.key key ledger := by
  have hchange : ∀ stored : LedgerRow, LedgerRow.key (withCandidate now row stored) = LedgerRow.key stored := fun _ => rfl
  unfold upsertCandidate
  split
  next hnone =>
    have hfresh : Keyed.find LedgerRow.key (LedgerRow.key ⟨row, now⟩) ledger = none := hnone
    have hnew : LedgerRow.key ⟨row, now⟩ = row.key := rfl
    rw [Keyed.find_concat hfresh, hnew]
    by_cases hkey : row.key = key
    · rw [if_pos hkey, if_pos hkey.symm]
    · rw [if_neg hkey, if_neg (Ne.symm hkey)]
  next old hold =>
    by_cases hkey : row.key = key
    · obtain ⟨hmem, hsame⟩ := Keyed.mem_of_find hold
      have hstrategy : old.row.strategyKey = row.strategyKey := congrArg Prod.fst hsame
      have htable : old.row.sourceTable = row.sourceTable := by
        rw [hledger old.row (List.mem_map_of_mem hmem), hstrategy, hrow]
      rw [if_pos hkey, ← hkey, Keyed.find_update_self _ hchange, hold, Option.map_some, withCandidate_eq hsame htable]
    · rw [if_neg hkey, Keyed.find_update_of_ne _ hchange (Ne.symm hkey)]

theorem tablesFit_upsertCandidate {row : CandidateRow} (hrow : row.sourceTable = row.strategyKey.sourceTable)
    (hledger : TablesFit (ledger.map LedgerRow.row)) : TablesFit ((upsertCandidate now ledger row).map LedgerRow.row) := by
  unfold upsertCandidate
  split
  next =>
    intro stored hstored
    rw [List.map_append] at hstored
    rcases List.mem_append.mp hstored with hold | hnew
    · exact hledger stored hold
    · rw [List.mem_singleton.mp hnew]
      exact hrow
  next =>
    intro kept hkept
    obtain ⟨stored, hstored, rfl⟩ := List.mem_map.mp hkept
    rcases Keyed.mem_update.mp hstored with ⟨old, hold, -, rfl⟩ | ⟨hold, -⟩
    · exact hledger old.row (List.mem_map_of_mem hold)
    · exact hledger stored.row (List.mem_map_of_mem hold)

theorem tablesFit_upsertCandidates (hrows : TablesFit rows) (hledger : TablesFit (ledger.map LedgerRow.row)) :
    TablesFit ((upsertCandidates now rows ledger).map LedgerRow.row) := by
  unfold upsertCandidates
  induction rows generalizing ledger with
  | nil => exact hledger
  | cons row rest ih =>
      have hrow := hrows row List.mem_cons_self
      exact ih (fun other hother => hrows other (List.mem_cons_of_mem row hother)) (tablesFit_upsertCandidate hrow hledger)

theorem find_upsertCandidates (hrows : TablesFit rows) (hledger : TablesFit (ledger.map LedgerRow.row)) :
    Keyed.find LedgerRow.key key (upsertCandidates now rows ledger) =
      (written now rows key).or (Keyed.find LedgerRow.key key ledger) := by
  unfold upsertCandidates
  induction rows generalizing ledger with
  | nil => rfl
  | cons row rest ih =>
      have hrow := hrows row List.mem_cons_self
      have hnext : TablesFit ((upsertCandidate now ledger row).map LedgerRow.row) := tablesFit_upsertCandidate hrow hledger
      have hrest : TablesFit rest := fun other hother => hrows other (List.mem_cons_of_mem row hother)
      rw [List.foldl_cons, ih hrest hnext, find_upsertCandidate hrow hledger, written_cons]
      by_cases hkey : row.key = key
      · rw [if_pos hkey, if_pos hkey, Option.or_assoc]
        rfl
      · rw [if_neg hkey, if_neg hkey, Option.or_none]

/-! ## Materializers -/

theorem tablesFit_map {α : Type} (candidates : List α) (make : α → CandidateRow)
    (hmake : ∀ candidate, (make candidate).sourceTable = (make candidate).strategyKey.sourceTable) :
    TablesFit (candidates.map make) := by
  intro row hrow
  obtain ⟨candidate, -, rfl⟩ := List.mem_map.mp hrow
  exact hmake candidate

theorem flowKey_sourceTable (observation : FlowObservation) :
    (flowKey observation).sourceTable = "xiaojie_leader_flow_observations" := by
  unfold flowKey
  split
  next => rfl
  next => rfl

theorem rankDetections_mem {detections : List Detection} {ranked : List (Detection × ℤ)} {entry : Detection × ℤ}
    (h : entry ∈ rankDetections detections ranked) : entry ∈ ranked ∨ entry.1 ∈ detections := by
  induction detections generalizing ranked with
  | nil => exact Or.inl h
  | cons detection rest ih =>
      unfold rankDetections at h
      rcases ih h with hold | hrest
      · rcases List.mem_append.mp hold with hranked | hnew
        · exact Or.inl hranked
        · rw [List.mem_singleton.mp hnew]
          exact Or.inr List.mem_cons_self
      · exact Or.inr (List.mem_cons_of_mem detection hrest)

theorem detection_sourceTable {sources : Sources} {asOfDate : Date} {detection : Detection}
    (h : detection ∈ detectionsOn sources asOfDate) :
    detection.strategyKey.sourceTable = "xiaojie_leader_flow_observations" := by
  unfold detectionsOn at h
  obtain ⟨group, hgroup, rfl⟩ := List.mem_map.mp ((List.mem_insertionSort _).mp h)
  obtain ⟨observation, -, rfl⟩ := List.mem_map.mp (List.mem_eraseDups.mp hgroup)
  exact flowKey_sourceTable observation

theorem tablesFit_leaderFlow (sources : Sources) (asOfDate : Date) :
    TablesFit (materializeLeaderFlowCandidates sources asOfDate) := by
  intro row hrow
  obtain ⟨entry, hentry, rfl⟩ := List.mem_map.mp hrow
  rcases rankDetections_mem hentry with hnil | hdetection
  · exact absurd hnil List.not_mem_nil
  · exact (detection_sourceTable hdetection).symm

theorem tablesFit_materializer {materializer : Sources → Date → List CandidateRow} (h : materializer ∈ materializers)
    (sources : Sources) (asOfDate : Date) : TablesFit (materializer sources asOfDate) := by
  unfold materializers at h
  simp only [List.mem_cons, List.not_mem_nil, or_false] at h
  rcases h with rfl | rfl | rfl | rfl | rfl | rfl | rfl | rfl
  · exact tablesFit_map _ _ (fun _ => rfl)
  · exact tablesFit_map _ _ (fun _ => rfl)
  · exact tablesFit_map _ _ (fun _ => rfl)
  · unfold materializeLimitLinkageCandidates
    split
    next => exact fun _ hrow => absurd hrow List.not_mem_nil
    next => exact tablesFit_map _ _ (fun _ => rfl)
  · unfold materializeBoardStockMiningCandidates
    split
    next => exact fun _ hrow => absurd hrow List.not_mem_nil
    next => exact tablesFit_map _ _ (fun _ => rfl)
  · exact tablesFit_map _ _ (fun _ => rfl)
  · exact tablesFit_map _ _ (fun _ => rfl)
  · exact tablesFit_leaderFlow sources asOfDate

theorem tablesFit_proposedRows (sources : Sources) (asOfDate : Date) : TablesFit (proposedRows sources asOfDate) := by
  intro row hrow
  obtain ⟨materializer, hmaterializer, hmem⟩ := List.mem_flatMap.mp hrow
  exact tablesFit_materializer hmaterializer sources asOfDate row hmem

/-! ## Runs -/

theorem materializeLedger_ok {sources : Sources} {asOfDate : Date} {after : List LedgerRow}
    (h : materializeLedger sources asOfDate now ledger = .ok after) :
    after = upsertCandidates now (proposedRows sources asOfDate) ledger := by
  unfold materializeLedger at h
  dsimp only at h
  split at h
  next => exact (Except.ok.inj h).symm
  next => exact absurd h (by simp)

theorem tablesFit_afterwards (start : Sources) (ops : List LedgerOp) :
    TablesFit ((Driven.afterwards ledgerStep ops ⟨start, []⟩).ledger.map LedgerRow.row) := by
  induction ops using List.reverseRecOn with
  | nil => exact fun _ hrow => absurd hrow List.not_mem_nil
  | append_singleton ops op ih =>
      rw [Driven.afterwards_concat]
      cases op with
      | change sources => exact ih
      | materialize asOfDate now =>
          unfold ledgerStep
          dsimp only
          split
          next => exact ih
          next after hafter =>
            rw [materializeLedger_ok hafter]
            exact tablesFit_upsertCandidates (tablesFit_proposedRows _ _) ih

/-- **After any sequence of changes of the sources and of runs, a run's rows for its date are those of a run on an empty
    ledger exactly where each strategy and symbol that the ledger held for the date is still proposed.** -/
theorem ledger_follows_sources_iff (start : Sources) (ops : List LedgerOp) (asOfDate : Date) (now : Timestamp)
    (after fresh : List LedgerRow)
    (hafter : materializeLedger (Driven.afterwards ledgerStep ops ⟨start, []⟩).sources asOfDate now
      (Driven.afterwards ledgerStep ops ⟨start, []⟩).ledger = .ok after)
    (hfresh : materializeLedger (Driven.afterwards ledgerStep ops ⟨start, []⟩).sources asOfDate now [] = .ok fresh) :
    (∀ strategyKey symbol, Keyed.find LedgerRow.key (strategyKey, asOfDate, symbol) after =
        Keyed.find LedgerRow.key (strategyKey, asOfDate, symbol) fresh) ↔
      ∀ stored ∈ (Driven.afterwards ledgerStep ops ⟨start, []⟩).ledger, stored.row.asOfDate = asOfDate →
        ∃ row ∈ proposedRows (Driven.afterwards ledgerStep ops ⟨start, []⟩).sources asOfDate, row.key = stored.key := by
  have hledger := tablesFit_afterwards start ops
  generalize Driven.afterwards ledgerStep ops ⟨start, []⟩ = world at hafter hfresh hledger
  have hrows := tablesFit_proposedRows world.sources asOfDate
  have hempty : TablesFit (([] : List LedgerRow).map LedgerRow.row) := fun _ hrow => absurd hrow List.not_mem_nil
  rw [materializeLedger_ok hafter, materializeLedger_ok hfresh]
  constructor
  · intro hsame stored hstored hdate
    by_contra hgone
    have hnone : written now (proposedRows world.sources asOfDate) stored.key = none :=
      written_eq_none.mpr (fun row hrow hkey => hgone ⟨row, hrow, hkey⟩)
    have hfind := hsame stored.row.strategyKey stored.row.symbol
    have hkey : stored.key = (stored.row.strategyKey, asOfDate, stored.row.symbol) := by rw [← hdate]; rfl
    rw [← hkey, find_upsertCandidates hrows hledger, find_upsertCandidates hrows hempty, hnone, Option.none_or,
      Option.none_or] at hfind
    have hgone' : stored.key ∉ world.ledger.map LedgerRow.key := Keyed.find_eq_none.mp hfind
    exact hgone' (List.mem_map_of_mem hstored)
  · intro hproposed strategyKey symbol
    rw [find_upsertCandidates hrows hledger, find_upsertCandidates hrows hempty]
    rcases hwritten : written now (proposedRows world.sources asOfDate) (strategyKey, asOfDate, symbol) with _ | row
    · rw [Option.none_or, Option.none_or]
      refine Keyed.find_eq_none.mpr (fun hmem => ?_)
      obtain ⟨stored, hstored, hkey⟩ := List.mem_map.mp hmem
      have hdate : stored.row.asOfDate = asOfDate := congrArg (fun key => key.2.1) hkey
      obtain ⟨row, hrow, hsame⟩ := hproposed stored hstored hdate
      exact written_eq_none.mp hwritten row hrow (hsame.trans hkey)
    · rw [Option.some_or, Option.some_or]

/-- Intraday runs of one day: the first proposes A, and a later one, where there is one, only B. -/
def linkageSources (later : Bool) : Sources where
  linkageRuns := ⟨"r1", 5, 100⟩ :: (if later then [⟨"r2", 5, 200⟩] else [])
  linkages := [⟨"r1", "A", 1, 40⟩, ⟨"r2", "B", 1, 88⟩]
  market := ⟨fun _ _ => none, [("A", none), ("B", none)], fun _ _ => false, fun _ _ => none⟩

/-- A second run over the same sources follows them. -/
theorem ledger_follows_sources_iff_again :
    Keyed.find LedgerRow.key (.limitLinkage, 5, "A") (upsertCandidates 2 (proposedRows (linkageSources false) 5)
        (Driven.afterwards ledgerStep [.materialize 5 1] ⟨linkageSources false, []⟩).ledger) =
      Keyed.find LedgerRow.key (.limitLinkage, 5, "A") (upsertCandidates 2 (proposedRows (linkageSources false) 5) []) := by
  refine (ledger_follows_sources_iff (linkageSources false) [.materialize 5 1] 5 2 _ _ ?_ ?_).mpr ?_ .limitLinkage "A"
  · decide +kernel
  · decide +kernel
  · decide +kernel

/-- The candidate of the earlier run stays. -/
theorem dropped_candidate_stays : ¬ ∀ (start : Sources) (ops : List LedgerOp) (asOfDate : Date) (now : Timestamp)
    (after fresh : List LedgerRow),
    materializeLedger (Driven.afterwards ledgerStep ops ⟨start, []⟩).sources asOfDate now
      (Driven.afterwards ledgerStep ops ⟨start, []⟩).ledger = .ok after →
    materializeLedger (Driven.afterwards ledgerStep ops ⟨start, []⟩).sources asOfDate now [] = .ok fresh →
    ∀ strategyKey symbol, Keyed.find LedgerRow.key (strategyKey, asOfDate, symbol) after =
      Keyed.find LedgerRow.key (strategyKey, asOfDate, symbol) fresh := by
  intro h
  have hstays := h (linkageSources false) [.materialize 5 1, .change (linkageSources true)] 5 2 _ _ (by rfl) (by rfl)
    .limitLinkage "A"
  exact absurd hstays (by decide +kernel)

end TradingHarness.Candidates
