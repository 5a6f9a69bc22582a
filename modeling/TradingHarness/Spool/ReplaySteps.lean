import TradingHarness.Spool.Replay

set_option autoImplicit false

/-! # Steps of a replay

What the loop over the files takes and leaves of each, and what the writer makes of the records that are left. -/

namespace TradingHarness

variable {host : Host}

/-! ## Files of replayed streams -/

/-- The file is a readable segment of a replayed stream. -/
def PendingFile.Replayed (config : SpoolConfig) (file : PendingFile host) : Prop :=
  ∃ first rest, file.content = .readable first rest ∧ (∀ record ∈ rest, record.stream = first.stream)
    ∧ first.stream ∈ config.replayStreams.map String.toList

/-- The records of a file that the loop may take. -/
def replayedRecords (config : SpoolConfig) (file : PendingFile host) : List (SealedRecord host) :=
  match examine config file.content with
  | .replayed first rest => first :: rest
  | _ => []

theorem stream_registered (record : SealedRecord host) : record.stream ∈ replayAdapters.map String.toList := by
  have hnormalised := record.evidence.normalised
  have hchecked : checkObservation host record.evidence.fields = .ok record.evidence.fields := by
    have hsorted : sortedFields record.evidence.fields = record.evidence.fields := by
      have hsort := JsonText.sortKeys_of_wellFormed _ record.evidence.wellFormed
      rw [sortKeys_obj] at hsort
      exact JsonText.Value.obj.inj hsort
    rw [normaliseObservation_eq host _ record.evidence.isValue_fields, hsorted] at hnormalised
    split_ifs at hnormalised
    exact hnormalised
  unfold checkObservation at hchecked
  dsimp only at hchecked
  split_ifs at hchecked with hdigest hpayload hstream
  have hmem : targetStream host record.evidence.fields ∈ evidenceStreams.map String.toList := by
    simpa using hstream
  exact hmem

theorem length_dedup_eq_one_iff {α : Type} [DecidableEq α] (first : α) (rest : List α) :
    (first :: rest).dedup.length = 1 ↔ ∀ item ∈ rest, item = first := by
  constructor
  · intro h item hitem
    obtain ⟨only, honly⟩ := List.length_eq_one_iff.mp h
    have hall : ∀ other ∈ first :: rest, other = only := by
      intro other hother
      rw [← List.mem_dedup, honly, List.mem_singleton] at hother
      exact hother
    rw [hall item (List.mem_cons_of_mem _ hitem), hall first List.mem_cons_self]
  · intro h
    have hsubset : (first :: rest).dedup ⊆ [first] := by
      intro other hother
      rw [List.mem_dedup, List.mem_cons] at hother
      exact List.mem_singleton.mpr (hother.elim id (h other))
    have hle := ((List.nodup_dedup (first :: rest)).subperm hsubset).length_le
    have hpos := List.length_pos_of_mem (List.mem_dedup.mpr (List.mem_cons_self (a := first) (l := rest)))
    rw [List.length_singleton] at hle
    omega

variable {config : SpoolConfig} {file : PendingFile host}

theorem examine_of_replayed (h : file.Replayed config) :
    ∃ first rest, file.content = .readable first rest ∧ examine config file.content = .replayed first rest := by
  obtain ⟨first, rest, hcontent, hsame, hstream⟩ := h
  refine ⟨first, rest, hcontent, ?_⟩
  have hone : ¬ ((first :: rest).map SealedRecord.stream).dedup.length ≠ 1 := by
    rw [not_not, List.map_cons, length_dedup_eq_one_iff, List.forall_mem_map]
    exact hsame
  rw [hcontent, examine, if_neg hone, if_neg (not_not.mpr (List.contains_iff_mem.mpr hstream)),
    if_neg (not_not.mpr (List.contains_iff_mem.mpr (stream_registered first)))]

theorem replayed_of_examine {first : SealedRecord host}
    {rest : List (SealedRecord host)} (h : examine config file.content = .replayed first rest) :
    file.Replayed config ∧ file.records = first :: rest := by
  rcases hcontent : file.content with ⟨start, others⟩ | message
  · rw [hcontent, examine] at h
    split_ifs at h with hone hstream hadapter
    obtain ⟨rfl, rfl⟩ := Examined.replayed.inj h
    rw [not_not, List.map_cons, length_dedup_eq_one_iff, List.forall_mem_map] at hone
    refine ⟨⟨start, others, hcontent, hone, List.contains_iff_mem.mp hstream⟩, ?_⟩
    rw [PendingFile.records, hcontent]
  · rw [hcontent, examine] at h
    exact absurd h (by simp)

theorem replayedRecords_of_replayed (h : file.Replayed config) :
    replayedRecords config file = file.records ∧ file.records ≠ [] := by
  obtain ⟨first, rest, hcontent, hexamined⟩ := examine_of_replayed h
  rw [replayedRecords, hexamined, (replayed_of_examine hexamined).2]
  exact ⟨rfl, List.cons_ne_nil first rest⟩

/-! ## The loop -/

/-- What the loop takes of a file, and what it leaves. -/
structure Taking (host : Host) where
  file : PendingFile host
  taken : List (SealedRecord host)
  left : List (SealedRecord host)

/-- The files that the loop takes records of, where it has some already. -/
def takings (config : SpoolConfig) (rowLimit : ℕ) : ℕ → List (PendingFile host) → List (Taking host)
  | _, [] => []
  | count, file :: rest =>
    match examine config file.content with
    | .replayed first others =>
      if rowLimit ≤ count then []
      else
        ⟨file, (first :: others).take (rowLimit - count), (first :: others).drop (rowLimit - count)⟩
          :: takings config rowLimit (count + ((first :: others).take (rowLimit - count)).length) rest
    | _ => takings config rowLimit count rest

def Taking.rows (taking : Taking host) : List (SpoolPath × SealedRecord host) :=
  taking.taken.map (fun record => (taking.file.path, record))

/-- The entry of the remainder. -/
def Taking.remainder (taking : Taking host) : Option (SpoolPath × List (SealedRecord host)) :=
  if taking.left = [] then none else some (taking.file.path, taking.left)

section

variable (config : SpoolConfig)

/-- The loop collects what is taken and what is left. -/
theorem collect_eq (rowLimit : ℕ) (files : List (PendingFile host))
    (collected : Collected host) :
    (collect config rowLimit files collected).valid
        = collected.valid ++ (takings config rowLimit collected.valid.length files).flatMap Taking.rows
      ∧ (collect config rowLimit files collected).remainder
        = collected.remainder ++ (takings config rowLimit collected.valid.length files).filterMap Taking.remainder := by
  induction files generalizing collected with
  | nil => exact ⟨(List.append_nil _).symm, (List.append_nil _).symm⟩
  | cons file files ih =>
      rw [collect, takings]
      rcases examine config file.content with message | _ | ⟨first, others⟩
      · exact ih _
      · exact ih _
      · simp only
        by_cases hfull : rowLimit ≤ collected.valid.length
        · rw [if_pos hfull, if_pos hfull]
          exact ⟨(List.append_nil _).symm, (List.append_nil _).symm⟩
        · rw [if_neg hfull, if_neg hfull]
          obtain ⟨hvalid, hremainder⟩ := ih { collected with
            valid := collected.valid
              ++ ((first :: others).take (rowLimit - collected.valid.length)).map (fun record => (file.path, record))
            remainder := if (first :: others).drop (rowLimit - collected.valid.length) = [] then collected.remainder
              else collected.remainder ++ [(file.path, (first :: others).drop (rowLimit - collected.valid.length))] }
          rw [hvalid, hremainder]
          simp only [List.length_append, List.length_map, List.flatMap_cons, List.append_assoc, Taking.rows, true_and]
          rw [List.filterMap_cons]
          unfold Taking.remainder
          simp only
          split
          · rfl
          · rw [List.append_assoc, List.singleton_append]

theorem quarantined_collect (rowLimit : ℕ) (files : List (PendingFile host))
    (collected : Collected host) {path : SpoolPath}
    (h : path ∈ (collect config rowLimit files collected).quarantined) :
    path ∈ collected.quarantined ∨ ∃ file ∈ files, ¬ file.Replayed config ∧ file.path = path := by
  induction files generalizing collected with
  | nil => exact Or.inl h
  | cons file files ih =>
      rw [collect] at h
      rcases hexamined : examine config file.content with message | _ | ⟨first, others⟩
      · rw [hexamined] at h
        rcases ih _ h with hmem | ⟨other, hother, hcorrupt⟩
        · rcases List.mem_append.mp hmem with hmem | hmem
          · exact Or.inl hmem
          · refine Or.inr ⟨file, List.mem_cons_self, fun hreplayed => ?_, (List.mem_singleton.mp hmem).symm⟩
            obtain ⟨first, rest, -, hother⟩ := examine_of_replayed hreplayed
            rw [hexamined] at hother
            exact absurd hother (by simp)
        · exact Or.inr ⟨other, List.mem_cons_of_mem _ hother, hcorrupt⟩
      · rw [hexamined] at h
        rcases ih _ h with hmem | ⟨other, hother, hcorrupt⟩
        · exact Or.inl hmem
        · exact Or.inr ⟨other, List.mem_cons_of_mem _ hother, hcorrupt⟩
      · rw [hexamined] at h
        simp only at h
        split at h
        · exact Or.inl h
        · rcases ih _ h with hmem | ⟨other, hother, hcorrupt⟩
          · exact Or.inl hmem
          · exact Or.inr ⟨other, List.mem_cons_of_mem _ hother, hcorrupt⟩

theorem takings_sublist (rowLimit count : ℕ) (files : List (PendingFile host)) :
    ((takings config rowLimit count files).map Taking.file).Sublist files := by
  induction files generalizing count with
  | nil => exact List.Sublist.refl []
  | cons file files ih =>
      rw [takings]
      split
      · split
        · exact List.nil_sublist _
        · exact (ih _).cons_cons file
      · exact (ih count).cons file

end

theorem mem_takings {rowLimit count : ℕ} {files : List (PendingFile host)} {taking : Taking host}
    (h : taking ∈ takings config rowLimit count files) :
    taking.file.Replayed config ∧ taking.taken ++ taking.left = taking.file.records ∧ taking.taken ≠ [] := by
  induction files generalizing count with
  | nil => exact absurd h List.not_mem_nil
  | cons file files ih =>
      rw [takings] at h
      split at h
      · next first others hexamined =>
          split at h
          · exact absurd h List.not_mem_nil
          · next hfree =>
              rcases List.mem_cons.mp h with rfl | hrest
              · obtain ⟨hreplayed, hrecords⟩ := replayed_of_examine hexamined
                refine ⟨hreplayed, ?_, ?_⟩
                · rw [hrecords, List.take_append_drop]
                · obtain ⟨free, hfree⟩ := Nat.exists_eq_succ_of_ne_zero (Nat.sub_ne_zero_of_lt (not_le.mp hfree))
                  rw [hfree, List.take_succ_cons]
                  exact List.cons_ne_nil _ _
              · exact ih hrest
      · exact ih h

theorem takings_ne_nil {rowLimit : ℕ} {files : List (PendingFile host)}
    (hlimit : 0 < rowLimit) (hmem : file ∈ files) (h : file.Replayed config) :
    takings config rowLimit 0 files ≠ [] := by
  induction files with
  | nil => exact absurd hmem List.not_mem_nil
  | cons other files ih =>
      rw [takings]
      split
      · rw [if_neg (by omega)]
        exact List.cons_ne_nil _ _
      · next hnone =>
          rcases List.mem_cons.mp hmem with rfl | hrest
          · obtain ⟨first, rest, -, hexamined⟩ := examine_of_replayed h
            exact absurd hexamined (hnone first rest)
          · exact ih hrest

/-! ## The writer -/

def PendingFile.recordIds (file : PendingFile host) : List (List Char) :=
  file.records.map (fun record => record.evidence.digest)

variable {moments : ℕ → Moment} {writer : SpoolWriter host} {record : SealedRecord host}

namespace SpoolWriter

/-- The segments of the writer, sealed or open. -/
def segments (writer : SpoolWriter host) : List (PendingFile host) :=
  writer.sealedFiles ++ writer.opened.map (fun entry => entry.2.close)

theorem write_known (h : (writer.memoryPaths.lookup record.evidence.digest).isSome = true) :
    writer.write config moments record = { writer with calls := writer.calls + 1 } := if_pos h

theorem write_calls (config : SpoolConfig) (moments : ℕ → Moment) (writer : SpoolWriter host)
    (record : SealedRecord host) : (writer.write config moments record).calls = writer.calls + 1 := by
  unfold write
  dsimp only
  split_ifs
  · rfl
  · rfl
  · rfl

/-- The segment that a record is written to. -/
def target (moments : ℕ → Moment) (writer : SpoolWriter host) (record : SealedRecord host) :
    Option (OpenSegment host) :=
  writer.opened.lookup (segmentKey host (moments writer.calls).today record.evidence.fields)

/-- The other segments. -/
def others (moments : ℕ → Moment) (writer : SpoolWriter host) (record : SealedRecord host) :
    List (PendingFile host) :=
  writer.sealedFiles ++ (Dict.erase writer.opened
    (segmentKey host (moments writer.calls).today record.evidence.fields)).map (fun entry => entry.2.close)

/-- The segment once the record is in it. -/
def written (moments : ℕ → Moment) (writer : SpoolWriter host) (record : SealedRecord host) : OpenSegment host :=
  ((target moments writer record).map (·.append record)).getD (OpenSegment.create (moments writer.calls) record)

theorem segments_perm (moments : ℕ → Moment) (writer : SpoolWriter host) (record : SealedRecord host)
    (hkeys : (writer.opened.map Prod.fst).Nodup) :
    writer.segments.Perm (others moments writer record
      ++ ((target moments writer record).map OpenSegment.close).toList) := by
  have hperm := Dict.perm_erase writer.opened
    (segmentKey host (moments writer.calls).today record.evidence.fields) hkeys
  have hclosed := hperm.map (fun entry => entry.2.close)
  unfold segments others target
  rw [List.append_assoc]
  refine List.Perm.append_left _ (hclosed.trans ?_)
  rw [List.map_append]
  refine List.perm_append_comm.trans (List.Perm.append_left _ (List.Perm.of_eq ?_))
  rcases writer.opened.lookup _ with _ | segment
  · rfl
  · rfl

/-- **A record that is not remembered is appended to its segment, or to a new one.** -/
theorem write_segments (config : SpoolConfig) (moments : ℕ → Moment) (writer : SpoolWriter host)
    (record : SealedRecord host) (hkeys : (writer.opened.map Prod.fst).Nodup)
    (hnew : ¬ (writer.memoryPaths.lookup record.evidence.digest).isSome = true) :
    (writer.write config moments record).segments.Perm
      (others moments writer record ++ [(written moments writer record).close]) := by
  unfold write segments others
  dsimp only
  rw [if_neg hnew]
  split_ifs with hfull
  · rw [List.append_assoc, List.append_assoc]
    exact List.Perm.append_left _ List.perm_append_comm
  · have hset := (Dict.perm_set writer.opened
      (segmentKey host (moments writer.calls).today record.evidence.fields) (written moments writer record) hkeys).map
      (fun entry => entry.2.close)
    rw [List.append_assoc]
    exact List.Perm.append_left _ (hset.trans (List.perm_append_singleton _ _).symm)

theorem write_keys (hkeys : (writer.opened.map Prod.fst).Nodup) :
    ((writer.write config moments record).opened.map Prod.fst).Nodup := by
  unfold write
  dsimp only
  split_ifs
  · exact hkeys
  · exact Dict.nodup_keys_erase _ hkeys
  · exact Dict.nodup_keys_set _ _ _ hkeys

theorem isSome_lookup_iff (memory : List (List Char × Unit)) (digest : List Char) :
    (memory.lookup digest).isSome = true ↔ digest ∈ memory.map Prod.fst := by
  rw [← not_iff_not, ← Dict.lookup_eq_none, Option.not_isSome_iff_eq_none]

theorem write_memory {digest : List Char}
    (hnew : ¬ (writer.memoryPaths.lookup record.evidence.digest).isSome = true)
    (h : ((writer.write config moments record).memoryPaths.lookup digest).isSome = true) :
    (writer.memoryPaths.lookup digest).isSome = true ∨ digest = record.evidence.digest := by
  have hmemory : (writer.write config moments record).memoryPaths
      = remember config.memoryItems writer.memoryPaths record.evidence.digest () := by
    unfold write
    dsimp only
    rw [if_neg hnew]
    split_ifs
    · rfl
    · rfl
  rw [hmemory, isSome_lookup_iff, remember] at h
  obtain ⟨entry, hentry, rfl⟩ := List.mem_map.mp h
  rcases List.mem_append.mp (List.mem_of_mem_drop hentry) with hbefore | hsingle
  · exact Or.inl ((isSome_lookup_iff _ _).mpr (List.mem_map_of_mem (List.mem_filter.mp hbefore).1))
  · rw [List.mem_singleton.mp hsingle]
    exact Or.inr rfl

/-- What has been written, of the records that were given. -/
structure Wrote (moments : ℕ → Moment) (start : ℕ) (given : List (SealedRecord host))
    (writer : SpoolWriter host) : Prop where
  keys : (writer.opened.map Prod.fst).Nodup
  calls : writer.calls = start + given.length
  paths : ∀ file ∈ writer.segments, ∃ count fields, start ≤ count ∧ count < writer.calls
    ∧ file.path = segmentPath host (moments count) fields
  distinct : (writer.segments.map PendingFile.path).Nodup
  length : (writer.segments.flatMap PendingFile.records).length ≤ given.length
  kept : ∀ record ∈ given, ∃ file ∈ writer.segments, record.evidence.digest ∈ file.recordIds
  remembered : ∀ digest, (writer.memoryPaths.lookup digest).isSome = true →
    ∃ file ∈ writer.segments, digest ∈ file.recordIds

theorem written_close (moments : ℕ → Moment) (writer : SpoolWriter host) (record : SealedRecord host) :
    (target moments writer record = none
        ∧ (written moments writer record).close.path = segmentPath host (moments writer.calls) record.evidence.fields
        ∧ (written moments writer record).close.records = [record])
      ∨ ∃ segment, target moments writer record = some segment
        ∧ (written moments writer record).close.path = segment.close.path
        ∧ (written moments writer record).close.records = segment.close.records ++ [record] := by
  unfold written
  rcases target moments writer record with _ | segment
  · exact Or.inl ⟨rfl, rfl, rfl⟩
  · exact Or.inr ⟨segment, rfl, rfl, rfl⟩

/-- The uuids of the clock's moments are different ones. -/
abbrev Uuids (moments : ℕ → Moment) : Prop := Function.Injective (fun count => (moments count).uuid)

theorem segmentPath_inj (huuids : Uuids moments) {count other : ℕ}
    {fields others : List (List Char × JsonText.Value)}
    (h : segmentPath host (moments count) fields = segmentPath host (moments other) others) : count = other := by
  unfold segmentPath newSegmentId at h
  obtain ⟨hday, hrest⟩ := List.cons.inj h
  obtain ⟨-, hrest⟩ := List.cons.inj hrest
  have hname := List.append_cancel_right (List.cons.inj hrest).1
  rw [hday] at hname
  exact huuids (Subtype.ext (List.cons.inj (List.append_cancel_left hname)).2)

theorem write_recordIds (hkeys : (writer.opened.map Prod.fst).Nodup)
    (hnew : ¬ (writer.memoryPaths.lookup record.evidence.digest).isSome = true) {digest : List Char}
    (h : (∃ file ∈ writer.segments, digest ∈ file.recordIds) ∨ digest = record.evidence.digest) :
    ∃ file ∈ (writer.write config moments record).segments, digest ∈ file.recordIds := by
  have hperm := write_segments config moments writer record hkeys hnew
  have hclosed : (written moments writer record).close ∈ (writer.write config moments record).segments :=
    hperm.mem_iff.mpr (List.mem_append_right _ (List.mem_singleton_self _))
  have hrecords := written_close moments writer record
  rcases h with ⟨file, hfile, hdigest⟩ | rfl
  · rcases List.mem_append.mp ((segments_perm moments writer record hkeys).mem_iff.mp hfile) with hother | hold
    · exact ⟨file, hperm.mem_iff.mpr (List.mem_append_left _ hother), hdigest⟩
    · -- the segment that the record is appended to
      rcases hrecords with ⟨hnone, -, -⟩ | ⟨segment, hsome, -, happended⟩
      · rw [hnone] at hold
        exact absurd hold List.not_mem_nil
      · rw [hsome] at hold
        obtain rfl := List.mem_singleton.mp hold
        refine ⟨_, hclosed, ?_⟩
        rw [PendingFile.recordIds, happended, List.map_append]
        exact List.mem_append_left _ hdigest
  · refine ⟨_, hclosed, ?_⟩
    rw [PendingFile.recordIds]
    rcases hrecords with ⟨-, -, hrecords⟩ | ⟨segment, -, -, hrecords⟩
    · rw [hrecords]
      exact List.mem_singleton_self _
    · rw [hrecords, List.map_append]
      exact List.mem_append_right _ (List.mem_singleton_self _)

theorem Wrote.write {start : ℕ} {given : List (SealedRecord host)}
    (huuids : Uuids moments) (h : Wrote moments start given writer)
    (record : SealedRecord host) :
    Wrote moments start (given ++ [record]) (writer.write config moments record) := by
  have hcalls : (writer.write config moments record).calls = start + (given ++ [record]).length := by
    rw [write_calls, h.calls, List.length_append, List.length_singleton, Nat.add_assoc]
  by_cases hknown : (writer.memoryPaths.lookup record.evidence.digest).isSome = true
  · -- the segments stay as they are
    have hsegments : (writer.write config moments record).segments = writer.segments := by
      rw [write_known hknown]
      rfl
    have hmemory : (writer.write config moments record).memoryPaths = writer.memoryPaths := by
      rw [write_known hknown]
    refine ⟨write_keys h.keys, hcalls, ?_, ?_, ?_, ?_, ?_⟩
    · rw [hsegments, write_calls]
      intro file hfile
      obtain ⟨count, fields, hstart, hcount, hpath⟩ := h.paths file hfile
      exact ⟨count, fields, hstart, by omega, hpath⟩
    · rw [hsegments]
      exact h.distinct
    · rw [hsegments, List.length_append]
      exact h.length.trans (Nat.le_add_right _ _)
    · rw [hsegments, List.forall_mem_append, List.forall_mem_singleton]
      exact ⟨h.kept, h.remembered _ hknown⟩
    · rw [hsegments, hmemory]
      exact h.remembered
  · have hperm := write_segments config moments writer record h.keys hknown
    have hbefore := segments_perm moments writer record h.keys
    have hothers : ∀ file ∈ others moments writer record, file ∈ writer.segments :=
      fun file hfile => hbefore.mem_iff.mpr (List.mem_append_left _ hfile)
    refine ⟨write_keys h.keys, hcalls, ?_, ?_, ?_, ?_, ?_⟩
    · rw [write_calls]
      intro file hfile
      have hold : ∀ file ∈ writer.segments, ∃ count fields, start ≤ count ∧ count < writer.calls + 1
          ∧ file.path = segmentPath host (moments count) fields := by
        intro file hfile
        obtain ⟨count, fields, hstart, hcount, hpath⟩ := h.paths file hfile
        exact ⟨count, fields, hstart, by omega, hpath⟩
      rcases List.mem_append.mp (hperm.mem_iff.mp hfile) with hother | hnew
      · exact hold file (hothers file hother)
      · rw [List.mem_singleton.mp hnew]
        rcases written_close moments writer record with ⟨-, hpath, -⟩ | ⟨segment, hsome, hpath, -⟩
        · exact ⟨writer.calls, record.evidence.fields, by rw [h.calls]; omega, by omega, hpath⟩
        · rw [hpath]
          exact hold _ (hbefore.mem_iff.mpr (List.mem_append_right _ (by rw [hsome]; exact List.mem_singleton_self _)))
    · rw [(hperm.map PendingFile.path).nodup_iff, List.map_append, List.map_singleton]
      have hdistinct := h.distinct
      rw [(hbefore.map PendingFile.path).nodup_iff, List.map_append] at hdistinct
      rcases written_close moments writer record with ⟨-, hpath, -⟩ | ⟨segment, hsome, hpath, -⟩
      · -- the path has a uuid that no segment had before
        rw [← List.concat_eq_append]
        refine hdistinct.of_append_left.concat (fun hmem => ?_)
        obtain ⟨file, hfile, hsame⟩ := List.mem_map.mp hmem
        obtain ⟨count, fields, -, hcount, hold⟩ := h.paths file (hothers file hfile)
        rw [hold, hpath] at hsame
        exact absurd (segmentPath_inj huuids hsame) (by omega)
      · rw [hpath]
        rw [hsome] at hdistinct
        exact hdistinct
    · have hlength := h.length
      rw [(hbefore.flatMap_right PendingFile.records).length_eq, List.flatMap_append, List.length_append] at hlength
      rw [(hperm.flatMap_right PendingFile.records).length_eq, List.flatMap_append, List.length_append,
        List.flatMap_singleton, List.length_append, List.length_singleton]
      rcases written_close moments writer record with ⟨hnone, -, hrecords⟩ | ⟨segment, hsome, -, hrecords⟩
      · rw [hrecords, List.length_singleton]
        omega
      · rw [hsome, Option.map_some, Option.toList_some, List.flatMap_singleton] at hlength
        rw [hrecords, List.length_append, List.length_singleton]
        omega
    · intro other hother
      refine write_recordIds h.keys hknown ?_
      rcases List.mem_append.mp hother with hgiven | hsingle
      · exact Or.inl (h.kept other hgiven)
      · rw [List.mem_singleton.mp hsingle]
        exact Or.inr rfl
    · intro digest hdigest
      exact write_recordIds h.keys hknown ((write_memory hknown hdigest).imp_left (h.remembered digest))

/-- The sealed segments are of replayed streams, and the open ones of one stream. -/
structure Streams (config : SpoolConfig) (stream : List Char) (writer : SpoolWriter host) : Prop where
  replayed : ∀ file ∈ writer.sealedFiles, file.Replayed config
  same : ∀ entry ∈ writer.opened, ∀ record ∈ entry.2.records, record.stream = stream

theorem replayed_close {stream : List Char} {segment : OpenSegment host}
    (hstream : stream ∈ config.replayStreams.map String.toList)
    (h : ∀ record ∈ segment.records, record.stream = stream) : segment.close.Replayed config := by
  unfold OpenSegment.records at h
  rw [List.forall_mem_cons] at h
  refine ⟨segment.first, segment.rest, rfl, fun record hrecord => ?_, ?_⟩
  · rw [h.2 record hrecord, h.1]
  · rw [h.1]
    exact hstream

theorem Streams.write {stream : List Char}
    (hstream : stream ∈ config.replayStreams.map String.toList) (h : Streams config stream writer)
    (hrecord : record.stream = stream) :
    Streams config stream (writer.write config moments record) := by
  have hwritten : ∀ other ∈ (written moments writer record).records, other.stream = stream := by
    unfold written target
    rcases hold : writer.opened.lookup _ with _ | segment
    · exact fun other hother => (List.mem_singleton.mp hother) ▸ hrecord
    · intro other hother
      have hmem : other ∈ segment.records ++ [record] := hother
      rcases List.mem_append.mp hmem with hbefore | hsingle
      · exact h.same _ (Dict.mem_of_lookup _ _ _ hold) other hbefore
      · rw [List.mem_singleton.mp hsingle]
        exact hrecord
  unfold SpoolWriter.write
  dsimp only
  split_ifs with hknown hfull
  · exact ⟨h.replayed, h.same⟩
  · refine ⟨?_, fun entry hentry => h.same entry (Dict.mem_erase hentry)⟩
    rw [List.forall_mem_append, List.forall_mem_singleton]
    exact ⟨h.replayed, replayed_close hstream hwritten⟩
  · refine ⟨h.replayed, fun entry hentry => ?_⟩
    rcases Dict.mem_set hentry with rfl | hbefore
    · exact hwritten
    · exact h.same entry hbefore

theorem Wrote.sealDue {start : ℕ} {given : List (SealedRecord host)}
    (h : Wrote moments start given writer) :
    Wrote moments start given writer.sealDue := by
  have hsegments : writer.sealDue.segments = writer.segments := List.append_nil _
  refine ⟨List.nodup_nil, h.calls, ?_, ?_, ?_, ?_, ?_⟩
  · rw [hsegments]
    exact h.paths
  · rw [hsegments]
    exact h.distinct
  · rw [hsegments]
    exact h.length
  · rw [hsegments]
    exact h.kept
  · rw [hsegments]
    exact h.remembered

/-- **The remainder of a file is in the segments**, which are of replayed streams. -/
theorem rewrite_wrote {start : ℕ} {given : List (SealedRecord host)}
    {stream : List Char} (huuids : Uuids moments) (h : Wrote moments start given writer)
    (hopened : writer.opened = []) (hreplayed : ∀ file ∈ writer.sealedFiles, file.Replayed config)
    (hstream : stream ∈ config.replayStreams.map String.toList) (records : List (SealedRecord host))
    (hrecords : ∀ record ∈ records, record.stream = stream) :
    Wrote moments start (given ++ records) (writer.rewrite config moments records)
      ∧ (writer.rewrite config moments records).opened = []
      ∧ ∀ file ∈ (writer.rewrite config moments records).sealedFiles, file.Replayed config := by
  have hstreams : Streams config stream writer := by
    refine ⟨hreplayed, ?_⟩
    rw [hopened]
    exact fun entry hentry => absurd hentry List.not_mem_nil
  have hfold : Wrote moments start (given ++ records) (records.foldl (SpoolWriter.write config moments) writer)
      ∧ Streams config stream (records.foldl (SpoolWriter.write config moments) writer) := by
    clear hopened hreplayed
    induction records generalizing writer given with
    | nil =>
        rw [List.append_nil]
        exact ⟨h, hstreams⟩
    | cons record records ih =>
        rw [List.forall_mem_cons] at hrecords
        rw [List.foldl_cons, List.append_cons]
        exact ih (h.write huuids record) hrecords.2 (hstreams.write hstream hrecords.1)
  obtain ⟨hwrote, hsame⟩ := hfold
  refine ⟨hwrote.sealDue, rfl, fun file hfile => ?_⟩
  rcases List.mem_append.mp hfile with hsealed | hopen
  · exact hsame.replayed file hsealed
  · obtain ⟨entry, hentry, rfl⟩ := List.mem_map.mp hopen
    exact replayed_close hstream (hsame.same entry hentry)

end SpoolWriter

end TradingHarness
