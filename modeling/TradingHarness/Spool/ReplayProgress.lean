import Mathlib.Data.List.Flatten
import TradingHarness.Spool.Recovery
import TradingHarness.Spool.ReplaySteps

set_option autoImplicit false

/-! # Progress of the replay

A pass inserts a record where one of its files is a readable segment of a replayed stream. The limit cuts the files
before their streams are known, so as many other files that sort first as the limit allows keep a pass from it. -/

namespace TradingHarness

variable {host : Host}

/-! ## A pass -/

open SpoolWriter (Uuids Wrote segmentPath_inj)

variable (config : SpoolConfig) (moments : ℕ → Moment) (limit : Option ℤ) (state : PendingState host)

/-- The files that a pass takes records of. -/
def passTakings : List (Taking host) :=
  takings config (rowLimitOf config limit) 0 (replayPaths config limit state)

/-- What is left of them. -/
def leftRecords : List (SealedRecord host) :=
  (passTakings config limit state).flatMap Taking.left

/-- The writer at the end of a pass. -/
def passWriter :
    SpoolWriter host :=
  ((passTakings config limit state).filterMap Taking.remainder).foldl (fun (writer : SpoolWriter host) entry =>
    writer.rewrite config moments entry.2) { calls := state.calls }

theorem rows_replayPending :
    (replayPending config moments limit state).rows = (passTakings config limit state).flatMap Taking.rows :=
  (collect_eq config (rowLimitOf config limit) (replayPaths config limit state) {}).1

theorem after_replayPending :
    (replayPending config moments limit state).after =
      { files := state.files.filter (fun file => decide
            (file.path ∉ (replayPending config moments limit state).quarantined
              ∧ file.path ∉ (replayPending config moments limit state).moved))
          ++ (passWriter config moments limit state).sealedFiles
        calls := (passWriter config moments limit state).calls } := by
  have hwriter : (collect config (rowLimitOf config limit) (replayPaths config limit state) {}).remainder.foldl
      (fun (writer : SpoolWriter host) entry => writer.rewrite config moments entry.2) { calls := state.calls }
      = passWriter config moments limit state := by
    rw [(collect_eq config (rowLimitOf config limit) (replayPaths config limit state) {}).2]
    rfl
  dsimp only [replayPending]
  rw [hwriter]
  rfl

variable {config : SpoolConfig} {limit : Option ℤ} {state : PendingState host} {file : PendingFile host}

theorem mem_replayPaths (h : file ∈ replayPaths config limit state) : file ∈ state.files := Keyset.mem_of_mem_page h

theorem mem_passTakings {taking : Taking host}
    (h : taking ∈ passTakings config limit state) :
    taking.file ∈ replayPaths config limit state ∧ taking.file.Replayed config
      ∧ taking.taken ++ taking.left = taking.file.records ∧ taking.taken ≠ [] :=
  ⟨(takings_sublist _ _ _ _).subset (List.mem_map_of_mem h), mem_takings h⟩

variable {moments : ℕ → Moment}

theorem mem_moved_iff {path : SpoolPath} :
    path ∈ (replayPending config moments limit state).moved
      ↔ ∃ taking ∈ passTakings config limit state, taking.file.path = path := by
  have hmoved : (replayPending config moments limit state).moved
      = ((replayPending config moments limit state).rows.map Prod.fst).dedup := rfl
  rw [hmoved, rows_replayPending, List.mem_dedup, List.mem_map]
  constructor
  · rintro ⟨row, hrow, rfl⟩
    obtain ⟨taking, htaking, hmem⟩ := List.mem_flatMap.mp hrow
    obtain ⟨record, -, rfl⟩ := List.mem_map.mp hmem
    exact ⟨taking, htaking, rfl⟩
  · rintro ⟨taking, htaking, rfl⟩
    obtain ⟨-, -, -, htaken⟩ := mem_passTakings htaking
    obtain ⟨record, rest, hrecord⟩ := List.exists_cons_of_ne_nil htaken
    refine ⟨(taking.file.path, record), List.mem_flatMap.mpr ⟨taking, htaking, ?_⟩, rfl⟩
    rw [Taking.rows, hrecord]
    exact List.mem_cons_self

theorem passWriter_wrote (config : SpoolConfig) (huuids : Uuids moments) (limit : Option ℤ)
    (state : PendingState host) :
    Wrote moments state.calls (leftRecords config limit state) (passWriter config moments limit state)
      ∧ (passWriter config moments limit state).opened = []
      ∧ ∀ file ∈ (passWriter config moments limit state).sealedFiles, file.Replayed config := by
  have hstreams : ∀ taking ∈ passTakings config limit state, ∃ stream ∈ config.replayStreams.map String.toList,
      ∀ record ∈ taking.left, record.stream = stream := by
    intro taking htaking
    obtain ⟨-, hreplayed, hrecords, -⟩ := mem_passTakings htaking
    obtain ⟨first, rest, hcontent, hsame, hstream⟩ := hreplayed
    refine ⟨first.stream, hstream, fun record hrecord => ?_⟩
    have hmem : record ∈ taking.file.records := hrecords ▸ List.mem_append_right _ hrecord
    rw [PendingFile.records, hcontent] at hmem
    rcases List.mem_cons.mp hmem with rfl | hrest
    · rfl
    · exact hsame record hrest
  have hstart : Wrote moments state.calls [] ({ calls := state.calls } : SpoolWriter host) := by
    refine ⟨List.nodup_nil, rfl, ?_, List.nodup_nil, Nat.le_refl _, ?_, ?_⟩
    · exact fun file hfile => absurd hfile List.not_mem_nil
    · exact fun record hrecord => absurd hrecord List.not_mem_nil
    · exact fun digest hdigest => absurd hdigest Bool.false_ne_true
  unfold passWriter leftRecords
  have hnone : ∀ file ∈ ({ calls := state.calls } : SpoolWriter host).sealedFiles, file.Replayed config :=
    fun file hfile => absurd hfile List.not_mem_nil
  rw [← List.nil_append (List.flatMap _ _)]
  generalize passTakings config limit state = takings at hstreams
  -- one file after the other, each with what was written before it
  suffices hfold : ∀ (given : List (SealedRecord host)) (writer : SpoolWriter host),
      Wrote moments state.calls given writer → writer.opened = [] → (∀ file ∈ writer.sealedFiles, file.Replayed config) →
      Wrote moments state.calls (given ++ takings.flatMap Taking.left) ((takings.filterMap Taking.remainder).foldl
          (fun (writer : SpoolWriter host) entry => writer.rewrite config moments entry.2) writer)
        ∧ ((takings.filterMap Taking.remainder).foldl
          (fun (writer : SpoolWriter host) entry => writer.rewrite config moments entry.2) writer).opened = []
        ∧ ∀ file ∈ ((takings.filterMap Taking.remainder).foldl
          (fun (writer : SpoolWriter host) entry => writer.rewrite config moments entry.2) writer).sealedFiles,
            file.Replayed config from hfold [] _ hstart rfl hnone
  clear hstart hnone
  induction takings with
  | nil =>
      intro given writer hwrote hopened hreplayed
      rw [List.flatMap_nil, List.append_nil]
      exact ⟨hwrote, hopened, hreplayed⟩
  | cons taking takings ih =>
      intro given writer hwrote hopened hreplayed
      rw [List.forall_mem_cons] at hstreams
      obtain ⟨⟨stream, hstream, hsame⟩, hrest⟩ := hstreams
      rw [List.flatMap_cons]
      by_cases hleft : taking.left = []
      · have hnone : taking.remainder = none := if_pos hleft
        rw [List.filterMap_cons_none hnone, hleft, List.nil_append]
        exact ih hrest given writer hwrote hopened hreplayed
      · have hsome : taking.remainder = some (taking.file.path, taking.left) := if_neg hleft
        obtain ⟨hnext, hclosed, hall⟩ :=
          SpoolWriter.rewrite_wrote huuids hwrote hopened hreplayed hstream taking.left hsame
        rw [List.filterMap_cons_some hsome, List.foldl_cons, ← List.append_assoc]
        exact ih hrest _ _ hnext hclosed hall

/-- The paths of the files are different ones, and none of them is that of a segment that is still to be opened. -/
structure Distinct (moments : ℕ → Moment) (state : PendingState host) : Prop where
  distinct : (state.files.map PendingFile.path).Nodup
  fresh : ∀ file ∈ state.files, ∀ count fields, state.calls ≤ count → file.path ≠ segmentPath host (moments count) fields

theorem segments_passWriter (config : SpoolConfig) (huuids : Uuids moments) (limit : Option ℤ)
    (state : PendingState host) :
    (passWriter config moments limit state).segments = (passWriter config moments limit state).sealedFiles := by
  unfold SpoolWriter.segments
  rw [(passWriter_wrote config huuids limit state).2.1, List.map_nil, List.append_nil]

theorem Distinct.replayPending (huuids : Uuids moments) (limit : Option ℤ) (h : Distinct moments state) :
    Distinct moments (replayPending config moments limit state).after := by
  obtain ⟨hwrote, -, -⟩ := passWriter_wrote config huuids limit state
  have hsegments := segments_passWriter config huuids limit state
  have hpaths := hwrote.paths
  have hdistinct := hwrote.distinct
  rw [hsegments] at hpaths hdistinct
  rw [after_replayPending]
  constructor
  · rw [List.map_append, List.nodup_append]
    refine ⟨h.distinct.sublist (List.filter_sublist.map _), hdistinct, ?_⟩
    rintro path hpath other hother rfl
    obtain ⟨file, hfile, rfl⟩ := List.mem_map.mp hpath
    obtain ⟨segment, hsegment, hsame⟩ := List.mem_map.mp hother
    obtain ⟨count, fields, hstart, -, hnew⟩ := hpaths segment hsegment
    exact h.fresh file (List.mem_filter.mp hfile).1 count fields hstart (hsame.symm.trans hnew)
  · intro file hfile count fields hcount
    have hcalls := hwrote.calls
    have hcount' : (passWriter config moments limit state).calls ≤ count := hcount
    rcases List.mem_append.mp hfile with hbefore | hsegment
    · exact h.fresh file (List.mem_filter.mp hbefore).1 count fields (by omega)
    · obtain ⟨other, others, -, hother, hpath⟩ := hpaths file hsegment
      intro hsame
      rw [hpath] at hsame
      have hcounts := segmentPath_inj huuids hsame
      omega

/-- The number of records of replayed streams. -/
def replayedTotal (config : SpoolConfig) (files : List (PendingFile host)) : ℕ :=
  (files.flatMap (replayedRecords config)).length

section

variable (config : SpoolConfig)

theorem replayedTotal_append (files others : List (PendingFile host)) :
    replayedTotal config (files ++ others) = replayedTotal config files + replayedTotal config others := by
  unfold replayedTotal
  rw [List.flatMap_append, List.length_append]

theorem replayedTotal_le_of_subperm {files others : List (PendingFile host)}
    (h : files.Subperm others) : replayedTotal config files ≤ replayedTotal config others := by
  obtain ⟨middle, hperm, hsublist⟩ := h
  unfold replayedTotal
  rw [(hperm.flatMap_right (replayedRecords config)).length_eq.symm]
  exact (hsublist.flatMap (replayedRecords config)).length_le

theorem replayedTotal_le_records (files : List (PendingFile host)) :
    replayedTotal config files ≤ (files.flatMap PendingFile.records).length := by
  unfold replayedTotal
  induction files with
  | nil => exact Nat.le_refl 0
  | cons file files ih =>
      rw [List.flatMap_cons, List.flatMap_cons, List.length_append, List.length_append]
      refine Nat.add_le_add ?_ ih
      unfold replayedRecords
      split
      · next first rest hexamined =>
          rw [(replayed_of_examine hexamined).2]
      · exact Nat.zero_le _

end

theorem length_takings :
    ((passTakings config limit state).flatMap Taking.rows).length + (leftRecords config limit state).length
      = replayedTotal config ((passTakings config limit state).map Taking.file) := by
  have hall : ∀ taking ∈ passTakings config limit state,
      taking.file.Replayed config ∧ taking.taken ++ taking.left = taking.file.records :=
    fun taking htaking => ⟨(mem_passTakings htaking).2.1, (mem_passTakings htaking).2.2.1⟩
  unfold leftRecords replayedTotal
  generalize passTakings config limit state = takings at hall
  induction takings with
  | nil => rfl
  | cons taking takings ih =>
      rw [List.forall_mem_cons] at hall
      have hlength := congrArg List.length hall.1.2
      rw [List.length_append] at hlength
      have hrest := ih hall.2
      have hrows : taking.rows.length = taking.taken.length := List.length_map _
      simp only [List.flatMap_cons, List.map_cons, List.length_append, hrows,
        (replayedRecords_of_replayed hall.1.1).1]
      omega

/-- **A pass takes away at least as many records of replayed streams as it inserts.** -/
theorem replayedTotal_after (config : SpoolConfig)     (huuids : Uuids moments) (limit : Option ℤ) (h : Distinct moments state) :
    replayedTotal config (replayPending config moments limit state).after.files
        + (replayPending config moments limit state).rows.length
      ≤ replayedTotal config state.files := by
  have hnew : replayedTotal config (passWriter config moments limit state).sealedFiles
      ≤ (leftRecords config limit state).length := by
    have hlength := (passWriter_wrote config huuids limit state).1.length
    rw [segments_passWriter config huuids] at hlength
    exact (replayedTotal_le_records config _).trans hlength
  have hnodup : state.files.Nodup := h.distinct.of_map
  have hmoved : ∀ file ∈ (passTakings config limit state).map Taking.file,
      file.path ∈ (replayPending config moments limit state).moved := by
    intro file hfile
    obtain ⟨taking, htaking, rfl⟩ := List.mem_map.mp hfile
    exact mem_moved_iff.mpr ⟨taking, htaking, rfl⟩
  have hsubperm : (state.files.filter (fun file => decide
        (file.path ∉ (replayPending config moments limit state).quarantined
          ∧ file.path ∉ (replayPending config moments limit state).moved))
      ++ (passTakings config limit state).map Taking.file).Subperm state.files := by
    refine List.Nodup.subperm ?_ ?_
    · rw [List.nodup_append]
      refine ⟨hnodup.sublist List.filter_sublist,
        (Keyset.nodup_page hnodup).sublist (takings_sublist _ _ _ _), ?_⟩
      rintro file hfile other hother rfl
      exact (of_decide_eq_true (List.mem_filter.mp hfile).2).2 (hmoved file hother)
    · intro file hfile
      rcases List.mem_append.mp hfile with hkept | htaken
      · exact (List.mem_filter.mp hkept).1
      · obtain ⟨taking, htaking, rfl⟩ := List.mem_map.mp htaken
        exact mem_replayPaths (mem_passTakings htaking).1
  have htotal := replayedTotal_le_of_subperm config hsubperm
  rw [replayedTotal_append, ← length_takings] at htotal
  rw [after_replayPending, replayedTotal_append, rows_replayPending]
  omega

/-- **A record is inserted by a pass, or it is still pending after it.** -/
theorem covered_after (huuids : Uuids moments) (limit : Option ℤ) (h : Distinct moments state)
    (hfile : file ∈ state.files) (hreplayed : file.Replayed config) {digest : List Char} (hdigest : digest ∈ file.recordIds) :
    digest ∈ (replayPending config moments limit state).rows.map (fun row => row.2.evidence.digest)
      ∨ ∃ other ∈ (replayPending config moments limit state).after.files, other.Replayed config ∧ digest ∈ other.recordIds := by
  obtain ⟨record, hrecord, rfl⟩ := List.mem_map.mp hdigest
  by_cases hmoved : file.path ∈ (replayPending config moments limit state).moved
  · obtain ⟨taking, htaking, hpath⟩ := mem_moved_iff.mp hmoved
    obtain ⟨hmem, -, hrecords, -⟩ := mem_passTakings htaking
    have hsame : taking.file = file :=
      List.inj_on_of_nodup_map h.distinct (mem_replayPaths hmem) hfile hpath
    rw [hsame] at hrecords
    rw [← hrecords] at hrecord
    rcases List.mem_append.mp hrecord with htaken | hleft
    · refine Or.inl (List.mem_map.mpr ⟨(taking.file.path, record), ?_, rfl⟩)
      rw [rows_replayPending]
      exact List.mem_flatMap.mpr ⟨taking, htaking, List.mem_map_of_mem htaken⟩
    · -- the record is written to a new segment
      obtain ⟨hwrote, -, hall⟩ := passWriter_wrote config huuids limit state
      obtain ⟨segment, hsegment, hkept⟩ := hwrote.kept record (List.mem_flatMap.mpr ⟨taking, htaking, hleft⟩)
      rw [segments_passWriter config huuids] at hsegment
      rw [after_replayPending]
      exact Or.inr ⟨segment, List.mem_append_right _ hsegment, hall segment hsegment, hkept⟩
  · refine Or.inr ⟨file, ?_, hreplayed, hdigest⟩
    rw [after_replayPending]
    refine List.mem_append_left _ (List.mem_filter.mpr ⟨hfile, decide_eq_true ⟨fun hquarantined => ?_, hmoved⟩⟩)
    rcases quarantined_collect config (rowLimitOf config limit) (replayPaths config limit state) {} hquarantined
      with hnone | ⟨other, hother, hcorrupt, hpath⟩
    · exact absurd hnone List.not_mem_nil
    · rw [List.inj_on_of_nodup_map h.distinct (mem_replayPaths hother) hfile hpath] at hcorrupt
      exact hcorrupt hreplayed

theorem mem_rows {row : SpoolPath × SealedRecord host} (h : row ∈ (replayPending config moments limit state).rows) :
    ∃ file ∈ replayPaths config limit state, file.Replayed config ∧ file.path = row.1 ∧ row.2 ∈ file.records := by
  rw [rows_replayPending] at h
  obtain ⟨taking, htaking, hrow⟩ := List.mem_flatMap.mp h
  obtain ⟨record, hrecord, rfl⟩ := List.mem_map.mp hrow
  obtain ⟨hmem, hreplayed, hrecords, -⟩ := mem_passTakings htaking
  exact ⟨taking.file, hmem, hreplayed, rfl, hrecords ▸ List.mem_append_left _ hrecord⟩

/-- **A pass inserts something where one of its files is of a replayed stream.** -/
theorem rows_ne_nil (hmem : file ∈ replayPaths config limit state) (h : file.Replayed config) :
    (replayPending config moments limit state).rows ≠ [] := by
  have hlimit : 0 < rowLimitOf config limit := by
    have hlength := List.length_pos_of_mem hmem
    exact hlength.trans_le Keyset.length_page_le
  obtain ⟨taking, others, htakings⟩ := List.exists_cons_of_ne_nil (takings_ne_nil hlimit hmem h)
  have htaking : taking ∈ passTakings config limit state := by
    unfold passTakings
    rw [htakings]
    exact List.mem_cons_self
  obtain ⟨record, rest, hrecord⟩ := List.exists_cons_of_ne_nil (mem_passTakings htaking).2.2.2
  rw [rows_replayPending]
  refine List.ne_nil_of_mem (a := (taking.file.path, record)) (List.mem_flatMap.mpr ⟨taking, htaking, ?_⟩)
  rw [Taking.rows, hrecord]
  exact List.mem_cons_self

/-! ## Runs -/

/-- Pending files, and the clock and uuids of the passes over them. -/
structure PendingSpool (host : Host) where
  files : List (PendingFile host)
  moments : ℕ → Moment
  distinct : (files.map PendingFile.path).Nodup
  uuids : Function.Injective (fun count => (moments count).uuid)
  fresh : ∀ file ∈ files, ∀ count fields, file.path ≠ segmentPath host (moments count) fields

namespace PendingSpool

/-- The state after a number of passes. -/
def passes (config : SpoolConfig) (limit : Option ℤ) (spool : PendingSpool host) : ℕ → PendingState host
  | 0 => { files := spool.files, calls := 0 }
  | count + 1 => (replayPending config spool.moments limit (passes config limit spool count)).after

/-- The rows of a pass. -/
def rows (config : SpoolConfig) (limit : Option ℤ) (spool : PendingSpool host) (count : ℕ) :
    List (SpoolPath × SealedRecord host) :=
  (replayPending config spool.moments limit (spool.passes config limit count)).rows

/-- The ids of the records that the first passes insert. -/
def inserted (config : SpoolConfig) (limit : Option ℤ) (spool : PendingSpool host) : ℕ → List (List Char)
  | 0 => []
  | count + 1 => inserted config limit spool count
      ++ (spool.rows config limit count).map (fun row => row.2.evidence.digest)

/-- Every pass inserts a record of a readable segment of a replayed stream, where one is pending, and all that are
    pending at the beginning are inserted after some passes. -/
def MakesProgress (config : SpoolConfig) (limit : Option ℤ) (spool : PendingSpool host) : Prop :=
  (∀ count, (∃ file ∈ (spool.passes config limit count).files, file.Replayed config) →
      ∃ file ∈ (spool.passes config limit count).files, file.Replayed config
        ∧ ∃ record ∈ file.records, (file.path, record) ∈ spool.rows config limit count)
    ∧ ∃ count, ∀ file ∈ spool.files, file.Replayed config → ∀ record ∈ file.records,
        record.evidence.digest ∈ spool.inserted config limit count

section

variable (config : SpoolConfig)

theorem distinct_passes (limit : Option ℤ) (spool : PendingSpool host) (count : ℕ) :
    Distinct spool.moments (spool.passes config limit count) := by
  induction count with
  | zero => exact ⟨spool.distinct, fun file hfile other fields _ => spool.fresh file hfile other fields⟩
  | succ count ih => exact ih.replayPending spool.uuids limit

theorem covered_passes (limit : Option ℤ) (spool : PendingSpool host) (count : ℕ)
    (hfile : file ∈ spool.files) (hreplayed : file.Replayed config) {digest : List Char}
    (hdigest : digest ∈ file.recordIds) :
    digest ∈ spool.inserted config limit count
      ∨ ∃ other ∈ (spool.passes config limit count).files, other.Replayed config ∧ digest ∈ other.recordIds := by
  induction count with
  | zero => exact Or.inr ⟨file, hfile, hreplayed, hdigest⟩
  | succ count ih =>
      rcases ih with hinserted | ⟨other, hother, hpending, hmem⟩
      · exact Or.inl (List.mem_append_left _ hinserted)
      · rcases covered_after spool.uuids limit (spool.distinct_passes config limit count) hother hpending hmem
          with hrow | hlater
        · exact Or.inl (List.mem_append_right _ hrow)
        · exact Or.inr hlater

theorem exists_passes_nil (limit : Option ℤ) (spool : PendingSpool host) :
    ∃ count, spool.rows config limit count = [] := by
  by_contra hnone
  push Not at hnone
  have htotal : ∀ count, replayedTotal config (spool.passes config limit count).files + count
      ≤ replayedTotal config spool.files := by
    intro count
    induction count with
    | zero => exact Nat.le_refl _
    | succ count ih =>
        have hafter := replayedTotal_after config spool.uuids limit (spool.distinct_passes config limit count)
        have hrows := List.length_pos_iff.mpr (hnone count)
        unfold rows at hrows
        rw [passes]
        omega
  have hlast := htotal (replayedTotal config spool.files + 1)
  omega

end

end PendingSpool

/-- **The replay makes progress exactly where the files of every pass, the first ones by their paths, have one of a
    replayed stream as long as any is pending.** -/
theorem replay_progress_iff (config : SpoolConfig) (limit : Option ℤ) (spool : PendingSpool host) :
    spool.MakesProgress config limit ↔
      ∀ count, (∃ file ∈ (spool.passes config limit count).files, file.Replayed config) →
        ∃ file ∈ Keyset.page PendingFile.order (rowLimitOf config limit) (spool.passes config limit count).files,
          file.Replayed config := by
  constructor
  · rintro ⟨hprogress, -⟩ count hpending
    obtain ⟨file, -, -, record, -, hrow⟩ := hprogress count hpending
    obtain ⟨other, hother, hreplayed, -⟩ := mem_rows hrow
    exact ⟨other, hother, hreplayed⟩
  · intro h
    constructor
    · intro count hpending
      obtain ⟨file, hfile, hreplayed⟩ := h count hpending
      have hne : spool.rows config limit count ≠ [] := rows_ne_nil hfile hreplayed
      obtain ⟨row, rest, hrow⟩ := List.exists_cons_of_ne_nil hne
      have hmem : row ∈ spool.rows config limit count := by
        rw [hrow]
        exact List.mem_cons_self
      obtain ⟨other, hother, hstream, hpath, hrecord⟩ := mem_rows hmem
      refine ⟨other, mem_replayPaths hother, hstream, row.2, hrecord, ?_⟩
      rw [hpath]
      exact hmem
    · -- after the first pass without a row nothing is pending
      obtain ⟨count, hnil⟩ := spool.exists_passes_nil config limit
      refine ⟨count, fun file hfile hreplayed record hrecord => ?_⟩
      refine (spool.covered_passes config limit count hfile hreplayed (List.mem_map_of_mem hrecord)).resolve_right ?_
      rintro ⟨other, hother, hpending, -⟩
      obtain ⟨first, hfirst, hstream⟩ := h count ⟨other, hother, hpending⟩
      have hne : spool.rows config limit count ≠ [] := rows_ne_nil hfirst hstream
      exact hne hnil

/-! ## A stream that is not replayed -/

/-- A board-flow observation, whose stream is not replayed by default. -/
def boardObservation : Observation letterHost where
  fields := letterFields "intraday_board_flow_snapshots" "0"
  isValue := isValue_letterFields _ _
  valid := by
    rw [normaliseObservation_letterFields]
    decide +kernel

theorem board_separated : ∀ char ∈ JsonText.canonical (.obj boardObservation.fields),
    char.toNat ∉ [0x85, 0x2028, 0x2029] := by
  refine not_mem_of_ascii ?_
  decide +kernel

/-- The record of an observation whose text has none of the three characters. -/
def sealedRecord (observation : Observation host) (h : ∀ char ∈ JsonText.canonical (.obj observation.fields),
    char.toNat ∉ [0x85, 0x2028, 0x2029]) : SealedRecord host where
  evidence := observation.evidence
  whole := (forall_whole_evidence [observation]).mpr (fun _ hmem => List.mem_singleton.mp hmem ▸ h) _
    (List.mem_map_of_mem List.mem_cons_self)

def boardFile : PendingFile letterHost where
  path := ["2026-10-16", "intraday_board_flow_snapshots", "2026-10-16-b.jsonl"].map String.toList
  content := .readable (sealedRecord boardObservation board_separated) []

def letterFile : PendingFile letterHost where
  path := ["2026-10-16", "raw_market_observations", "2026-10-16-b.jsonl"].map String.toList
  content := .readable (sealedRecord letterObservation letter_separated) []

theorem letters_unbroken (count : ℕ) :
    (List.replicate (count + 1) 'a').all (fun char => !Lines.isBreak char) = true := by
  rw [List.all_eq_true]
  intro char hchar
  rw [List.eq_of_mem_replicate hchar]
  decide

/-- Moments whose uuids are texts of one letter, of any length. -/
def letterMoments (count : ℕ) : Moment where
  today := exampleMoment.today
  now := exampleMoment.now
  uuid := ⟨List.replicate (count + 1) 'a', letters_unbroken count⟩

theorem letterMoments_injective : Function.Injective (fun count => (letterMoments count).uuid) := by
  intro count other hsame
  have hlength := congrArg (fun uuid : Stamp => uuid.val.length) hsame
  simpa [letterMoments] using hlength

theorem letterMoments_fresh (count : ℕ) (stream : String) (fields : List (List Char × JsonText.Value)) :
    ["2026-10-16", stream, "2026-10-16-b.jsonl"].map String.toList
      ≠ segmentPath letterHost (letterMoments count) fields := by
  intro h
  obtain ⟨hday, hrest⟩ := List.cons.inj h
  have hname := (List.cons.inj (List.cons.inj hrest).2).1
  have hletters : "2026-10-16-b.jsonl".toList = ("2026-10-16".toList ++ '-' :: ['b']) ++ ".jsonl".toList := by
    decide
  rw [hletters, newSegmentId, ← hday] at hname
  have hid := (List.cons.inj (List.append_cancel_left (List.append_cancel_right hname))).2
  simp only [letterMoments, List.replicate_succ, List.cons.injEq] at hid
  exact absurd hid.1 (by decide)

theorem starvedFiles_fresh : ∀ file ∈ [boardFile, letterFile], ∀ count fields,
    file.path ≠ segmentPath letterHost (letterMoments count) fields := by
  intro file hfile count fields
  rcases List.mem_cons.mp hfile with rfl | hfile
  · exact letterMoments_fresh count "intraday_board_flow_snapshots" fields
  · rw [List.mem_singleton.mp hfile]
    exact letterMoments_fresh count "raw_market_observations" fields

/-- A segment of board flow sorts before one of raw observations. -/
def starvedSpool : PendingSpool letterHost where
  files := [boardFile, letterFile]
  moments := letterMoments
  distinct := by decide
  uuids := letterMoments_injective
  fresh := starvedFiles_fresh

/-- With a limit of one, the segment of the replayed stream is never read. -/
theorem starved_by_other_stream : ¬ starvedSpool.MakesProgress {} (some 1) := by
  rintro ⟨hprogress, -⟩
  have hreplayed : letterFile.Replayed {} := by
    refine ⟨_, _, rfl, fun record hrecord => absurd hrecord List.not_mem_nil, ?_⟩
    decide +kernel
  obtain ⟨file, -, -, record, -, hrow⟩ := hprogress 0 ⟨letterFile, by simp [starvedSpool, PendingSpool.passes], hreplayed⟩
  obtain ⟨other, hother, ⟨first, rest, hcontent, -, hstream⟩, -⟩ := mem_rows hrow
  have hpaths : (replayPaths {} (some 1) (starvedSpool.passes {} (some 1) 0)).map PendingFile.path
      = [boardFile.path] := by
    decide +kernel
  have hpath := List.mem_singleton.mp (hpaths ▸ List.mem_map_of_mem hother)
  have hboard : other = boardFile := by
    rcases List.mem_cons.mp (mem_replayPaths hother) with hfirst | hsecond
    · exact hfirst
    · rw [List.mem_singleton.mp hsecond] at hpath
      exact absurd hpath (by decide)
  rw [hboard] at hcontent
  obtain ⟨rfl, -⟩ := SegmentContent.readable.inj hcontent
  exact absurd hstream (by decide +kernel)

end TradingHarness
