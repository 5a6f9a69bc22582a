import Mathlib.Data.List.Induction
import TradingHarness.Library.Driven
import TradingHarness.Xhs.Lanes

set_option autoImplicit false

/-! # One lane for a note

The lanes of revisions over all interleavings of the collectors and the queue. A revision is queued at most once, and
once if no recommendation run has it. That a run's revisions are not queued at all, and that the watch lane's go to a
summary, holds where no queue is faster than a run's reservation and no watched note waits under another lane's body. -/

namespace TradingHarness.Xhs

section OneLane

variable {β δ ϕ : Type}

/-- A recommendation run has the revision. -/
def Recommended (world : LaneWorld β δ ϕ) (revision : δ) : Prop := ∃ item ∈ world.items, item.revision = revision

/-- A run reserves a revision that has not been queued, and the watch lane meets no waiting note with another lane's
    body. -/
def LaneFits (config : LaneConfig δ ϕ) (world : LaneWorld β δ ϕ) : LaneOp β → Prop
  | .watch userId note _ _ => userId ≠ "" → ∀ row ∈ world.notes, row.revision = config.revisionOf note →
      row.jobId = none → isWatchRow row = true
  | .reserve place _ => ∀ collected, world.collecting[place]? = some collected →
      config.revisionOf collected.note ∉ queuedRevisions config world
  | _ => True

/-- The invariant of the table and the queue. -/
structure LanesSound (config : LaneConfig δ ϕ) (world : LaneWorld β δ ϕ) : Prop where
  keys : (world.notes.map NoteRow.revision).Nodup
  bodies : ∀ row ∈ world.notes, config.revisionOf row.body = row.revision
  once : (queuedRevisions config world).Nodup
  stored : ∀ revision ∈ queuedRevisions config world, ∃ row ∈ world.notes, row.revision = revision ∧ row.jobId ≠ none
  assigned : ∀ row ∈ world.notes, row.jobId ≠ none →
    row.revision ∈ queuedRevisions config world ∨ Recommended world row.revision
  collecting : ∀ collected ∈ world.collecting, ∃ row ∈ world.notes, row.revision = config.revisionOf collected.note

/-- The invariant of the lanes. -/
structure LanesSplit (config : LaneConfig δ ϕ) (world : LaneWorld β δ ϕ) : Prop where
  reserved : ∀ item ∈ world.items, item.revision ∉ queuedRevisions config world ∧
    ∃ row ∈ world.notes, row.revision = item.revision ∧ row.jobId ≠ none
  waiting : ∀ revision ∈ world.watched, ∀ row ∈ world.notes, row.revision = revision → row.jobId = none →
    isWatchRow row = true
  direct : ∀ revision ∈ world.watched, ∀ job ∈ world.jobs, revision ∈ jobRevisions config job → job.jobType = .summary

variable {config : LaneConfig δ ϕ} {world : LaneWorld β δ ϕ} {row : NoteRow β δ}

/-! ## Changes of the notes -/

/-- A row as it was, but for the time of its last sight. -/
def SameNote (old row : NoteRow β δ) : Prop :=
  old.revision = row.revision ∧ old.jobId = row.jobId ∧ old.body = row.body

variable [DecidableEq δ] {note : NoteBody β} {query : String} {now : Timestamp}

theorem mem_addNote (h : row ∈ (addNote config note query now world).notes) :
    (∃ old ∈ world.notes, SameNote old row) ∨
      (row.revision = config.revisionOf note ∧ row.jobId = none ∧ row.body = note ∧
        Keyed.find NoteRow.revision (config.revisionOf note) world.notes = none) := by
  unfold addNote at h
  dsimp only at h
  split at h
  next hnone =>
    rcases List.mem_append.mp h with hold | hnew
    · exact Or.inl ⟨row, hold, rfl, rfl, rfl⟩
    · rw [List.mem_singleton.mp hnew]
      exact Or.inr ⟨rfl, rfl, rfl, hnone⟩
  next =>
    rcases Keyed.mem_update.mp h with ⟨old, hold, -, rfl⟩ | ⟨hold, -⟩
    · exact Or.inl ⟨old, hold, rfl, rfl, rfl⟩
    · exact Or.inl ⟨row, hold, rfl, rfl, rfl⟩

theorem addNote_keeps (h : row ∈ world.notes) : ∃ after ∈ (addNote config note query now world).notes, SameNote row after := by
  unfold addNote
  dsimp only
  split
  next => exact ⟨row, List.mem_append_left _ h, rfl, rfl, rfl⟩
  next =>
    by_cases hkey : row.revision = config.revisionOf note
    · exact ⟨_, Keyed.mem_update.mpr (Or.inl ⟨row, h, hkey, rfl⟩), rfl, rfl, rfl⟩
    · exact ⟨row, Keyed.mem_update.mpr (Or.inr ⟨h, hkey⟩), rfl, rfl, rfl⟩

theorem addNote_stores (note : NoteBody β) (query : String) (now : Timestamp) :
    ∃ after ∈ (addNote config note query now world).notes, after.revision = config.revisionOf note := by
  rcases hfind : Keyed.find NoteRow.revision (config.revisionOf note) world.notes with _ | old
  · unfold addNote
    dsimp only
    rw [hfind]
    exact ⟨_, List.mem_append_right _ List.mem_cons_self, rfl⟩
  · obtain ⟨hold, hkey⟩ := Keyed.mem_of_find hfind
    obtain ⟨after, hafter, hsame, -⟩ := addNote_keeps hold
    exact ⟨after, hafter, hsame.symm.trans hkey⟩

theorem addNote_keys (h : (world.notes.map NoteRow.revision).Nodup) :
    ((addNote config note query now world).notes.map NoteRow.revision).Nodup := by
  unfold addNote
  dsimp only
  split
  next hnone =>
    have hnew := Keyed.find_eq_none.mp hnone
    rw [List.map_append, List.nodup_append]
    refine ⟨h, List.nodup_singleton _, ?_⟩
    rintro key hkey other hother rfl
    rw [List.map_singleton, List.mem_singleton] at hother
    rw [hother] at hkey
    exact hnew hkey
  next =>
    rw [Keyed.map_update (fun row : NoteRow β δ => { row with lastSeen := now }) NoteRow.revision (fun _ _ _ => rfl)]
    exact h

theorem LanesSound.addNote (h : LanesSound config world) (note : NoteBody β) (query : String) (now : Timestamp) :
    LanesSound config (addNote config note query now world) where
  keys := addNote_keys h.keys
  bodies := by
    intro row hrow
    rcases mem_addNote hrow with ⟨old, hold, hsame⟩ | ⟨hrevision, -, hbody, -⟩
    · rw [← hsame.1, ← hsame.2.2]
      exact h.bodies old hold
    · rw [hbody, hrevision]
  once := h.once
  stored := by
    intro revision hqueued
    obtain ⟨old, hold, hrevision, hjob⟩ := h.stored revision hqueued
    obtain ⟨after, hafter, hsame⟩ := addNote_keeps hold
    exact ⟨after, hafter, hsame.1.symm.trans hrevision, hsame.2.1 ▸ hjob⟩
  assigned := by
    intro row hrow hjob
    rcases mem_addNote hrow with ⟨old, hold, hsame⟩ | ⟨-, hnone, -⟩
    · rw [← hsame.1]
      exact h.assigned old hold (hsame.2.1 ▸ hjob)
    · exact absurd hnone hjob
  collecting := by
    intro collected hcollected
    obtain ⟨old, hold, hrevision⟩ := h.collecting collected hcollected
    obtain ⟨after, hafter, hsame⟩ := addNote_keeps hold
    exact ⟨after, hafter, hsame.1.symm.trans hrevision⟩

theorem LanesSplit.addNote (h : LanesSplit config world) (note : NoteBody β) (query : String) (now : Timestamp)
    (hwatched : config.revisionOf note ∈ world.watched → ∃ row ∈ world.notes, row.revision = config.revisionOf note) :
    LanesSplit config (addNote config note query now world) where
  reserved := by
    intro item hitem
    obtain ⟨hqueued, old, hold, hrevision, hjob⟩ := h.reserved item hitem
    obtain ⟨after, hafter, hsame⟩ := addNote_keeps hold
    exact ⟨hqueued, after, hafter, hsame.1.symm.trans hrevision, hsame.2.1 ▸ hjob⟩
  waiting := by
    intro revision hrevision row hrow hsame hnone
    rcases mem_addNote hrow with ⟨old, hold, hold'⟩ | ⟨hnew, -, -, hfind⟩
    · have hwatch := h.waiting revision hrevision old hold (hold'.1.trans hsame) (hold'.2.1.trans hnone)
      unfold isWatchRow at hwatch ⊢
      rw [← hold'.2.2]
      exact hwatch
    · obtain ⟨known, hknown, hkey⟩ := hwatched (hnew ▸ hsame ▸ hrevision)
      exact absurd (List.mem_map.mpr ⟨known, hknown, hkey⟩) (Keyed.find_eq_none.mp hfind)
  direct := h.direct

/-! ## Reservations -/

omit [DecidableEq δ] in
theorem withJob_spec (jobId : String) (row : NoteRow β δ) : (withJob jobId row).revision = row.revision ∧
    (withJob jobId row).body = row.body ∧ (withJob jobId row).jobId ≠ none := by
  unfold withJob
  split
  next => exact ⟨rfl, rfl, by simp⟩
  next job hjob => exact ⟨rfl, rfl, by rw [hjob]; simp⟩

theorem mem_reserve {revision : δ} {jobId : String}
    (h : row ∈ Keyed.update NoteRow.revision revision (withJob jobId) world.notes) :
    ∃ old ∈ world.notes, old.revision = row.revision ∧ old.body = row.body ∧
      (row.jobId = none → old = row) ∧ (row.jobId ≠ none → old.jobId ≠ none ∨ old.revision = revision) := by
  rcases Keyed.mem_update.mp h with ⟨old, hold, hkey, rfl⟩ | ⟨hold, -⟩
  · obtain ⟨hrevision, hbody, hjob⟩ := withJob_spec jobId old
    exact ⟨old, hold, hrevision.symm, hbody.symm, fun hnone => absurd hnone hjob, fun _ => Or.inr hkey⟩
  · exact ⟨row, hold, rfl, rfl, fun _ => rfl, fun hjob => Or.inl hjob⟩

theorem reserve_keeps {revision : δ} {jobId : String} (h : row ∈ world.notes) :
    ∃ after ∈ Keyed.update NoteRow.revision revision (withJob jobId) world.notes, after.revision = row.revision ∧
      (row.jobId ≠ none ∨ row.revision = revision → after.jobId ≠ none) := by
  by_cases hkey : row.revision = revision
  · obtain ⟨hrevision, -, hjob⟩ := withJob_spec jobId row
    exact ⟨withJob jobId row, Keyed.mem_update.mpr (Or.inl ⟨row, h, hkey, rfl⟩), hrevision, fun _ => hjob⟩
  · exact ⟨row, Keyed.mem_update.mpr (Or.inr ⟨h, hkey⟩), rfl, fun hor => hor.resolve_right hkey⟩

theorem mem_items {collected : Collected β} {item : RecommendationItem δ}
    (h : item ∈ (addRecommendationItem config collected now world).items) :
    item ∈ world.items ∨ item.revision = config.revisionOf collected.note := by
  unfold addRecommendationItem at h
  dsimp only at h
  split at h
  next => exact Or.inl h
  next =>
    rcases List.mem_append.mp h with hold | hnew
    · exact Or.inl hold
    · rw [List.mem_singleton.mp hnew]
      exact Or.inr rfl

theorem recommended_reserve (collected : Collected β) (now : Timestamp) :
    Recommended (addRecommendationItem config collected now world) (config.revisionOf collected.note) := by
  unfold Recommended addRecommendationItem
  dsimp only
  split
  next hany =>
    obtain ⟨item, hitem, hsame⟩ := List.any_eq_true.mp hany
    rw [Bool.and_eq_true, decide_eq_true_iff] at hsame
    exact ⟨item, hitem, hsame.2⟩
  next => exact ⟨_, List.mem_append_right _ List.mem_cons_self, rfl⟩

theorem Recommended.reserve {revision : δ} (h : Recommended world revision) (collected : Collected β) (now : Timestamp) :
    Recommended (addRecommendationItem config collected now world) revision := by
  obtain ⟨item, hitem, hrevision⟩ := h
  unfold Recommended addRecommendationItem
  dsimp only
  split
  next => exact ⟨item, hitem, hrevision⟩
  next => exact ⟨item, List.mem_append_left _ hitem, hrevision⟩

theorem LanesSound.reserve (h : LanesSound config world) (collected : Collected β) (now : Timestamp)
    {collecting : List (Collected β)} (hsub : collecting.Sublist world.collecting) :
    LanesSound config { addRecommendationItem config collected now world with collecting := collecting } where
  keys := by
    have hkeys : ((addRecommendationItem config collected now world).notes.map NoteRow.revision)
        = world.notes.map NoteRow.revision :=
      Keyed.map_update _ NoteRow.revision (fun row _ _ => (withJob_spec _ row).1)
    show ((addRecommendationItem config collected now world).notes.map NoteRow.revision).Nodup
    rw [hkeys]
    exact h.keys
  bodies := by
    intro row hrow
    obtain ⟨old, hold, hrevision, hbody, -⟩ := mem_reserve hrow
    rw [← hrevision, ← hbody]
    exact h.bodies old hold
  once := h.once
  stored := by
    intro revision hqueued
    obtain ⟨old, hold, hrevision, hjob⟩ := h.stored revision hqueued
    obtain ⟨after, hafter, hsame, hset⟩ := reserve_keeps hold
    exact ⟨after, hafter, hsame.trans hrevision, hset (Or.inl hjob)⟩
  assigned := by
    intro row hrow hjob
    obtain ⟨old, hold, hrevision, -, -, hset⟩ := mem_reserve hrow
    rw [← hrevision]
    rcases hset hjob with hold' | hkey
    · rcases h.assigned old hold hold' with hqueued | hrecommended
      · exact Or.inl hqueued
      · exact Or.inr (hrecommended.reserve collected now)
    · rw [hkey]
      exact Or.inr (recommended_reserve collected now)
  collecting := by
    intro other hother
    obtain ⟨old, hold, hrevision⟩ := h.collecting other (hsub.subset hother)
    obtain ⟨after, hafter, hsame, -⟩ := reserve_keeps hold
    exact ⟨after, hafter, hsame.trans hrevision⟩

theorem LanesSplit.reserve (h : LanesSplit config world) {collected : Collected β} (now : Timestamp)
    (hstored : ∃ row ∈ world.notes, row.revision = config.revisionOf collected.note)
    (hfresh : config.revisionOf collected.note ∉ queuedRevisions config world) (collecting : List (Collected β)) :
    LanesSplit config { addRecommendationItem config collected now world with collecting := collecting } where
  reserved := by
    intro item hitem
    have hrow : item.revision ∉ queuedRevisions config world ∧ ∃ row ∈ world.notes, row.revision = item.revision ∧
        (row.jobId ≠ none ∨ row.revision = config.revisionOf collected.note) := by
      rcases mem_items hitem with hold | hnew
      · obtain ⟨hqueued, row, hrow, hrevision, hjob⟩ := h.reserved item hold
        exact ⟨hqueued, row, hrow, hrevision, Or.inl hjob⟩
      · obtain ⟨row, hrow, hrevision⟩ := hstored
        rw [hnew]
        exact ⟨hfresh, row, hrow, hrevision, Or.inr hrevision⟩
    obtain ⟨hqueued, row, hrow, hrevision, hset⟩ := hrow
    obtain ⟨after, hafter, hsame, hjob⟩ := reserve_keeps hrow
    exact ⟨hqueued, after, hafter, hsame.trans hrevision, hjob hset⟩
  waiting := by
    intro revision hrevision row hrow hsame hnone
    obtain ⟨old, hold, -, -, hkept, -⟩ := mem_reserve hrow
    rw [hkept hnone] at hold
    exact h.waiting revision hrevision row hold hsame hnone
  direct := h.direct

/-! ## The queue -/

/-- Rows that may be queued: they are stored, wait, and are different. -/
structure Waiting (world : LaneWorld β δ ϕ) (rows : List (NoteRow β δ)) : Prop where
  stored : ∀ row ∈ rows, row ∈ world.notes ∧ row.jobId = none
  keys : (rows.map NoteRow.revision).Nodup

omit [DecidableEq δ] in
theorem waiting_pendingRows (h : LanesSound config world) (limit : ℕ) : Waiting world (pendingRows limit world.notes) := by
  have hperm := List.perm_insertionSort (fun row other : NoteRow β δ => row.firstSeen ≤ other.firstSeen)
    (world.notes.filter (fun row => row.jobId.isNone))
  refine ⟨fun row hrow => ?_, ?_⟩
  · obtain ⟨hmem, hnone⟩ := List.mem_filter.mp (hperm.subset (List.mem_of_mem_take hrow))
    exact ⟨hmem, Option.isNone_iff_eq_none.mp hnone⟩
  · have hsorted : (((world.notes.filter (fun row => row.jobId.isNone)).insertionSort
        (fun row other => row.firstSeen ≤ other.firstSeen)).map NoteRow.revision).Nodup :=
      (hperm.map NoteRow.revision).nodup_iff.mpr ((List.filter_sublist.map NoteRow.revision).nodup h.keys)
    exact ((List.take_sublist limit _).map NoteRow.revision).nodup hsorted

omit [DecidableEq δ] in
theorem Waiting.filter {rows : List (NoteRow β δ)} (h : Waiting world rows) (keep : NoteRow β δ → Bool) :
    Waiting world (rows.filter keep) :=
  ⟨fun row hrow => h.stored row (List.mem_filter.mp hrow).1, (List.filter_sublist.map NoteRow.revision).nodup h.keys⟩

omit [DecidableEq δ] in
theorem LanesSound.fresh (h : LanesSound config world) (hrow : row ∈ world.notes) (hnone : row.jobId = none) :
    row.revision ∉ queuedRevisions config world := by
  intro hqueued
  obtain ⟨other, hother, hrevision, hjob⟩ := h.stored row.revision hqueued
  rw [List.inj_on_of_nodup_map h.keys hother hrow hrevision] at hjob
  exact hjob hnone

/-- What a queued job changes. -/
structure Queues (config : LaneConfig δ ϕ) (job : NotesJob β δ ϕ) (rows : List (NoteRow β δ))
    (world after : LaneWorld β δ ϕ) : Prop where
  notes : after.notes = world.notes.map (fun row =>
    if row.revision ∈ rows.map NoteRow.revision then { row with jobId := some job.jobId } else row)
  jobs : after.jobs = world.jobs ++ [job]
  items : after.items = world.items
  collecting : after.collecting = world.collecting
  watched : after.watched = world.watched

theorem queueRows_ok {job : NotesJob β δ ϕ} {rows : List (NoteRow β δ)} {queued : Option String}
    {after : LaneWorld β δ ϕ} (h : queueRows job rows world = .ok (queued, after)) :
    queued = some job.jobId ∧ Queues config job rows world after := by
  unfold queueRows at h
  split at h
  next => exact absurd h (by simp)
  next =>
    rw [Except.ok.injEq, Prod.mk.injEq] at h
    obtain ⟨hqueued, rfl⟩ := h
    exact ⟨hqueued.symm, rfl, rfl, rfl, rfl, rfl⟩

variable {job : NotesJob β δ ϕ} {rows : List (NoteRow β δ)} {after : LaneWorld β δ ϕ}

section

variable (h : Queues config job rows world after)

include h

theorem Queues.revisions (hjob : jobRevisions config job = rows.map NoteRow.revision) :
    queuedRevisions config after = queuedRevisions config world ++ rows.map NoteRow.revision := by
  unfold queuedRevisions
  rw [h.jobs, List.flatMap_append, List.flatMap_cons, List.flatMap_nil, List.append_nil, hjob]

theorem Queues.mem (hrow : row ∈ after.notes) :
    ∃ old ∈ world.notes, old.revision = row.revision ∧ old.body = row.body ∧ (row.jobId = none → old = row) ∧
      (row.jobId ≠ none → old.jobId ≠ none ∨ old.revision ∈ rows.map NoteRow.revision) := by
  rw [h.notes] at hrow
  obtain ⟨old, hold, rfl⟩ := List.mem_map.mp hrow
  refine ⟨old, hold, ?_⟩
  split
  next hmem => exact ⟨rfl, rfl, fun hnone => absurd hnone (by simp), fun _ => Or.inr hmem⟩
  next => exact ⟨rfl, rfl, fun _ => rfl, fun hjob => Or.inl hjob⟩

theorem Queues.keeps (hrow : row ∈ world.notes) :
    ∃ kept ∈ after.notes, kept.revision = row.revision ∧
      (row.jobId ≠ none ∨ row.revision ∈ rows.map NoteRow.revision → kept.jobId ≠ none) := by
  rw [h.notes]
  refine ⟨_, List.mem_map.mpr ⟨row, hrow, rfl⟩, ?_⟩
  split
  next => exact ⟨rfl, fun _ => by simp⟩
  next hnot => exact ⟨rfl, fun hor => hor.resolve_right hnot⟩

end

theorem LanesSound.queue (h : LanesSound config world) (hqueues : Queues config job rows world after)
    (hwaiting : Waiting world rows) (hjob : jobRevisions config job = rows.map NoteRow.revision) :
    LanesSound config after where
  keys := by
    have hkeys : after.notes.map NoteRow.revision = world.notes.map NoteRow.revision := by
      rw [hqueues.notes, List.map_map]
      refine List.map_congr_left (fun row _ => ?_)
      rw [Function.comp_apply]
      split
      next => rfl
      next => rfl
    rw [hkeys]
    exact h.keys
  bodies := by
    intro row hrow
    obtain ⟨old, hold, hrevision, hbody, -⟩ := hqueues.mem hrow
    rw [← hrevision, ← hbody]
    exact h.bodies old hold
  once := by
    rw [hqueues.revisions hjob, List.nodup_append]
    refine ⟨h.once, hwaiting.keys, ?_⟩
    rintro revision hqueued other hother rfl
    obtain ⟨row, hrow, rfl⟩ := List.mem_map.mp hother
    exact h.fresh (hwaiting.stored row hrow).1 (hwaiting.stored row hrow).2 hqueued
  stored := by
    intro revision hqueued
    rw [hqueues.revisions hjob] at hqueued
    rcases List.mem_append.mp hqueued with hold | hnew
    · obtain ⟨old, hold, hrevision, hjob⟩ := h.stored revision hold
      obtain ⟨kept, hkept, hsame, hset⟩ := hqueues.keeps hold
      exact ⟨kept, hkept, hsame.trans hrevision, hset (Or.inl hjob)⟩
    · obtain ⟨row, hrow, rfl⟩ := List.mem_map.mp hnew
      obtain ⟨kept, hkept, hsame, hset⟩ := hqueues.keeps (hwaiting.stored row hrow).1
      exact ⟨kept, hkept, hsame, hset (Or.inr hnew)⟩
  assigned := by
    intro row hrow hset
    obtain ⟨old, hold, hrevision, -, -, hor⟩ := hqueues.mem hrow
    rw [← hrevision, hqueues.revisions hjob]
    unfold Recommended
    rw [hqueues.items]
    rcases hor hset with hold' | hnew
    · exact (h.assigned old hold hold').imp (List.mem_append_left _) id
    · exact Or.inl (List.mem_append_right _ hnew)
  collecting := by
    intro collected hcollected
    rw [hqueues.collecting] at hcollected
    obtain ⟨old, hold, hrevision⟩ := h.collecting collected hcollected
    obtain ⟨kept, hkept, hsame, -⟩ := hqueues.keeps hold
    exact ⟨kept, hkept, hsame.trans hrevision⟩

theorem LanesSplit.queue (h : LanesSplit config world) (hsound : LanesSound config world)
    (hqueues : Queues config job rows world after) (hwaiting : Waiting world rows)
    (hjob : jobRevisions config job = rows.map NoteRow.revision)
    (hwatch : job.jobType = .summary ∨ ∀ row ∈ rows, isWatchRow row = false) : LanesSplit config after where
  reserved := by
    intro item hitem
    rw [hqueues.items] at hitem
    obtain ⟨hqueued, row, hrow, hrevision, hset⟩ := h.reserved item hitem
    obtain ⟨kept, hkept, hsame, hjob'⟩ := hqueues.keeps hrow
    refine ⟨?_, kept, hkept, hsame.trans hrevision, hjob' (Or.inl hset)⟩
    rw [hqueues.revisions hjob]
    intro hmem
    rcases List.mem_append.mp hmem with hold | hnew
    · exact hqueued hold
    · obtain ⟨other, hother, hsame'⟩ := List.mem_map.mp hnew
      obtain ⟨hstored, hnone⟩ := hwaiting.stored other hother
      rw [List.inj_on_of_nodup_map hsound.keys hrow hstored (hrevision.trans hsame'.symm)] at hset
      exact hset hnone
  waiting := by
    intro revision hrevision row hrow hsame hnone
    rw [hqueues.watched] at hrevision
    obtain ⟨old, hold, -, -, hkept, -⟩ := hqueues.mem hrow
    rw [hkept hnone] at hold
    exact h.waiting revision hrevision row hold hsame hnone
  direct := by
    intro revision hrevision queued hqueued hmem
    rw [hqueues.watched] at hrevision
    rw [hqueues.jobs] at hqueued
    rcases List.mem_append.mp hqueued with hold | hnew
    · exact h.direct revision hrevision queued hold hmem
    · rw [List.mem_singleton.mp hnew] at hmem ⊢
      rw [hjob] at hmem
      obtain ⟨row, hrow, hrow'⟩ := List.mem_map.mp hmem
      rcases hwatch with hsummary | hnone
      · exact hsummary
      · obtain ⟨hstored, hwaits⟩ := hwaiting.stored row hrow
        have hwatched := h.waiting revision hrevision row hstored hrow' hwaits
        rw [hnone row hrow] at hwatched
        exact absurd hwatched (by simp)

omit [DecidableEq δ] in
theorem jobRevisions_eq (h : LanesSound config world) (hwaiting : Waiting world rows) (label : NoteRow β δ → Option δ) :
    (rows.map (fun row => ({ candidateId := label row, body := row.body } : PayloadNote β δ))).map
      (fun note => config.revisionOf note.body) = rows.map NoteRow.revision := by
  rw [List.map_map]
  exact List.map_congr_left (fun row hrow => h.bodies row (hwaiting.stored row hrow).1)

/-- `enqueue_pending` finds nothing that waits, or queues rows that wait: those of the watch lane in a summary, others only
    where there are none. -/
theorem enqueuePending_ok (h : LanesSound config world) {limit : ℕ} {queued : Option String}
    (hok : enqueuePending config limit now world = .ok (queued, after)) :
    (queued = none ∧ after = world ∧ pendingRows limit world.notes = []) ∨
      ∃ job rows, queued = some job.jobId ∧ Queues config job rows world after ∧ Waiting world rows ∧
        jobRevisions config job = rows.map NoteRow.revision ∧
        (job.jobType = .summary ∨ ∀ row ∈ rows, isWatchRow row = false) := by
  have hwaiting := waiting_pendingRows h limit
  unfold enqueuePending at hok
  dsimp only at hok
  split at hok
  next hempty =>
    rw [Except.ok.injEq, Prod.mk.injEq] at hok
    exact Or.inl ⟨hok.1.symm, hok.2.symm, List.isEmpty_iff.mp hempty⟩
  next =>
    right
    split at hok
    next =>
      obtain ⟨hqueued, hqueues⟩ := queueRows_ok hok
      exact ⟨_, _, hqueued, hqueues, hwaiting.filter isWatchRow,
        jobRevisions_eq h (hwaiting.filter isWatchRow) (fun _ => none), Or.inl rfl⟩
    next hnone =>
      obtain ⟨hqueued, hqueues⟩ := queueRows_ok hok
      refine ⟨_, _, hqueued, hqueues, hwaiting, jobRevisions_eq h hwaiting (fun row => some row.revision), Or.inr ?_⟩
      intro row hrow
      have hempty : (pendingRows limit world.notes).filter isWatchRow = [] := by simpa using hnone
      simpa using List.filter_eq_nil_iff.mp hempty row hrow

/-! ## Steps -/

theorem lanesSound_step (op : LaneOp β) (h : LanesSound config world) : LanesSound config (laneStep config op world) := by
  cases op with
  | watch userId note query now =>
      have hadded := h.addNote { note with watchUserId := userId } query now
      unfold laneStep
      dsimp only
      split
      next => exact h
      next =>
        split
        next => exact hadded
        next => exact ⟨hadded.keys, hadded.bodies, hadded.once, hadded.stored, hadded.assigned, hadded.collecting⟩
  | keyword note query now => exact h.addNote { note with watchUserId := "" } query now
  | recommend collected now =>
      have hadded := h.addNote { collected.note with watchUserId := "" } ("recommendation:" ++ collected.runId) now
      refine ⟨hadded.keys, hadded.bodies, hadded.once, hadded.stored, hadded.assigned, fun other hother => ?_⟩
      rcases List.mem_append.mp hother with hold | hnew
      · exact hadded.collecting other hold
      · rw [List.mem_singleton.mp hnew]
        exact addNote_stores _ ("recommendation:" ++ collected.runId) now
  | reserve place now =>
      unfold laneStep
      dsimp only
      split
      next => exact h
      next collected _ => exact h.reserve collected now (List.eraseIdx_sublist _ _)
  | enqueue limit now =>
      unfold laneStep
      dsimp only
      split
      next => exact h
      next queued after hok =>
        rcases enqueuePending_ok h hok with ⟨-, rfl, -⟩ | ⟨job, rows, -, hqueues, hwaiting, hjob, -⟩
        · exact h
        · exact h.queue hqueues hwaiting hjob

/-- A revision that the watch lane observed is stored. -/
structure LanesApart (config : LaneConfig δ ϕ) (world : LaneWorld β δ ϕ) : Prop where
  sound : LanesSound config world
  split : LanesSplit config world
  known : ∀ revision ∈ world.watched, ∃ row ∈ world.notes, row.revision = revision

theorem known_addNote {revision : δ} (h : ∃ row ∈ world.notes, row.revision = revision) :
    ∃ row ∈ (addNote config note query now world).notes, row.revision = revision := by
  obtain ⟨row, hrow, hrevision⟩ := h
  obtain ⟨after, hafter, hsame⟩ := addNote_keeps hrow
  exact ⟨after, hafter, hsame.1.symm.trans hrevision⟩

theorem LanesApart.addNote (h : LanesApart config world) (note : NoteBody β) (query : String) (now : Timestamp) :
    LanesApart config (addNote config note query now world) :=
  ⟨h.sound.addNote note query now, h.split.addNote note query now (h.known _),
    fun revision hrevision => known_addNote (h.known revision hrevision)⟩

theorem LanesApart.watch (h : LanesApart config world) {userId : String} (huser : userId ≠ "") (note : NoteBody β)
    (query : String) (now : Timestamp) (hfresh : config.revisionOf note ∉ queuedRevisions config world)
    (hfits : ∀ row ∈ world.notes, row.revision = config.revisionOf note → row.jobId = none → isWatchRow row = true) :
    LanesApart config { Xhs.addNote config { note with watchUserId := userId } query now world with
      watched := config.revisionOf note :: world.watched } := by
  have hadded := h.addNote { note with watchUserId := userId } query now
  refine ⟨⟨hadded.sound.keys, hadded.sound.bodies, hadded.sound.once, hadded.sound.stored, hadded.sound.assigned,
    hadded.sound.collecting⟩, ⟨hadded.split.reserved, fun revision hrevision row hrow hsame hnone => ?_,
    fun revision hrevision job hjob hmem => ?_⟩, fun revision hrevision => ?_⟩
  · rcases List.mem_cons.mp hrevision with rfl | hold
    · have hadd : row ∈ (Xhs.addNote config { note with watchUserId := userId } query now world).notes := hrow
      rcases mem_addNote hadd with ⟨old, hold, hold'⟩ | ⟨-, -, hbody, -⟩
      · have hwatch := hfits old hold (hold'.1.trans hsame) (hold'.2.1.trans hnone)
        unfold isWatchRow at hwatch ⊢
        rw [← hold'.2.2]
        exact hwatch
      · unfold isWatchRow
        rw [hbody]
        simpa using huser
    · exact hadded.split.waiting revision hold row hrow hsame hnone
  · rcases List.mem_cons.mp hrevision with rfl | hold
    · exact absurd (List.mem_flatMap.mpr ⟨job, hjob, hmem⟩) hfresh
    · exact hadded.split.direct revision hold job hjob hmem
  · rcases List.mem_cons.mp hrevision with rfl | hold
    · exact addNote_stores _ query now
    · exact hadded.known revision hold

theorem lanesApart_step (op : LaneOp β) (h : LanesApart config world) (hfits : LaneFits config world op) :
    LanesApart config (laneStep config op world) := by
  have hsound := lanesSound_step op h.sound
  cases op with
  | watch userId note query now =>
      unfold laneStep
      dsimp only
      split
      next => exact h
      next huser =>
        split
        next => exact h.addNote { note with watchUserId := userId } query now
        next hfresh => exact h.watch huser note query now hfresh (hfits huser)
  | keyword note query now => exact h.addNote { note with watchUserId := "" } query now
  | recommend collected now =>
      have hadded := h.addNote { collected.note with watchUserId := "" } ("recommendation:" ++ collected.runId) now
      exact ⟨hsound, ⟨hadded.split.reserved, hadded.split.waiting, hadded.split.direct⟩, hadded.known⟩
  | reserve place now =>
      unfold laneStep at hsound ⊢
      dsimp only at hsound ⊢
      split
      next => exact h
      next collected hcollected =>
        rw [hcollected] at hsound
        have hstored := h.sound.collecting collected (List.mem_of_getElem? hcollected)
        refine ⟨hsound, h.split.reserve now hstored (hfits collected hcollected) _, fun revision hrevision => ?_⟩
        obtain ⟨row, hrow, hrow'⟩ := h.known revision hrevision
        obtain ⟨after, hafter, hsame, -⟩ := reserve_keeps hrow
        exact ⟨after, hafter, hsame.trans hrow'⟩
  | enqueue limit now =>
      unfold laneStep at hsound ⊢
      dsimp only at hsound ⊢
      split
      next => exact h
      next queued after hok =>
        rw [hok] at hsound
        rcases enqueuePending_ok h.sound hok with ⟨-, rfl, -⟩ | ⟨job, rows, -, hqueues, hwaiting, hjob, hwatch⟩
        · exact h
        · refine ⟨hsound, h.split.queue h.sound hqueues hwaiting hjob hwatch, fun revision hrevision => ?_⟩
          rw [hqueues.watched] at hrevision
          obtain ⟨row, hrow, hrow'⟩ := h.known revision hrevision
          obtain ⟨kept, hkept, hsame, -⟩ := hqueues.keeps hrow
          exact ⟨kept, hkept, hsame.trans hrow'⟩

/-! ## Runs -/

section

variable (config : LaneConfig δ ϕ)

omit [DecidableEq δ] in
theorem lanesSound_start : LanesSound config ({} : LaneWorld β δ ϕ) := by
  refine ⟨List.nodup_nil, ?_, List.nodup_nil, ?_, ?_, ?_⟩
  all_goals
    intro _ hmem
    exact absurd hmem List.not_mem_nil

omit [DecidableEq δ] in
theorem lanesApart_start : LanesApart config ({} : LaneWorld β δ ϕ) := by
  refine ⟨lanesSound_start config, ⟨?_, ?_, ?_⟩, ?_⟩
  all_goals
    intro _ hmem
    exact absurd hmem List.not_mem_nil

theorem lanesSound_afterwards (ops : List (LaneOp β)) :
    LanesSound config (Driven.afterwards (laneStep config) ops ({} : LaneWorld β δ ϕ)) := by
  induction ops using List.reverseRecOn with
  | nil => exact lanesSound_start config
  | append_singleton ops op ih =>
      rw [Driven.afterwards_concat]
      exact lanesSound_step op ih

end

theorem queued_of_nothing (h : LanesSound config world) {limit : ℕ} (hlimit : 0 < limit)
    (hnothing : (enqueuePending config limit now world).map Prod.fst = .ok none) (hrow : row ∈ world.notes)
    (hrecommended : ¬ Recommended world row.revision) : row.revision ∈ queuedRevisions config world := by
  rcases hok : enqueuePending config limit now world with error | ⟨queued, after⟩
  · rw [hok] at hnothing
    exact absurd hnothing (by simp [Except.map])
  · rw [hok] at hnothing
    obtain rfl : queued = none := by simpa [Except.map] using hnothing
    rcases enqueuePending_ok h hok with ⟨-, -, hempty⟩ | ⟨job, rows, hqueued, -⟩
    · refine (h.assigned row hrow (fun hnone => ?_)).resolve_right hrecommended
      unfold pendingRows at hempty
      rcases List.take_eq_nil_iff.mp hempty with hzero | hsorted
      · omega
      · have hmem : row ∈ (world.notes.filter (fun row => row.jobId.isNone)).insertionSort
            (fun row other => row.firstSeen ≤ other.firstSeen) :=
          (List.mem_insertionSort _).mpr (List.mem_filter.mpr ⟨hrow, Option.isNone_iff_eq_none.mpr hnone⟩)
        rw [hsorted] at hmem
        exact List.not_mem_nil hmem
    · exact absurd hqueued (by simp)

/-- **In every interleaving a revision is queued at most once, and exactly once when nothing waits and no recommendation run
    has it. Where each reservation finds its revision unqueued and the watch lane meets no note that waits under another
    lane's body, no revision of a recommendation run is queued, and what the watch lane observed before it was queued is
    queued in a summary.** -/
theorem notes_go_one_way (config : LaneConfig δ ϕ) (ops : List (LaneOp β)) :
    (∀ revision, (queuedRevisions config (Driven.afterwards (laneStep config) ops ({} : LaneWorld β δ ϕ))).count revision ≤ 1) ∧
      (∀ limit now, 0 < limit →
        (enqueuePending config limit now (Driven.afterwards (laneStep config) ops ({} : LaneWorld β δ ϕ))).map Prod.fst = .ok none →
        ∀ row ∈ (Driven.afterwards (laneStep config) ops ({} : LaneWorld β δ ϕ)).notes,
          ¬ Recommended (Driven.afterwards (laneStep config) ops ({} : LaneWorld β δ ϕ)) row.revision →
          (queuedRevisions config (Driven.afterwards (laneStep config) ops ({} : LaneWorld β δ ϕ))).count row.revision = 1) ∧
      (Driven.Follows (laneStep config) (LaneFits config) ops ({} : LaneWorld β δ ϕ) →
        (∀ revision, Recommended (Driven.afterwards (laneStep config) ops ({} : LaneWorld β δ ϕ)) revision →
          revision ∉ queuedRevisions config (Driven.afterwards (laneStep config) ops ({} : LaneWorld β δ ϕ))) ∧
        ∀ revision ∈ (Driven.afterwards (laneStep config) ops ({} : LaneWorld β δ ϕ)).watched,
          ∀ job ∈ (Driven.afterwards (laneStep config) ops ({} : LaneWorld β δ ϕ)).jobs,
            revision ∈ jobRevisions config job → job.jobType = .summary) := by
  have hsound : LanesSound config (Driven.afterwards (laneStep config) ops ({} : LaneWorld β δ ϕ)) :=
    lanesSound_afterwards config ops
  refine ⟨List.nodup_iff_count_le_one.mp hsound.once, fun limit now hlimit hnothing row hrow hrecommended => ?_, fun hfits => ?_⟩
  · exact List.count_eq_one_of_mem hsound.once (queued_of_nothing hsound hlimit hnothing hrow hrecommended)
  · have hrun := Driven.run_afterwards ops ({} : LaneWorld β δ ϕ) hfits
    have hapart := hrun.keeps (lanesApart_start config) (fun world op h hfits => lanesApart_step op h hfits)
    refine ⟨fun revision hrecommended => ?_, hapart.split.direct⟩
    obtain ⟨item, hitem, rfl⟩ := hrecommended
    exact (hapart.split.reserved item hitem).1

/-- **No note is lost**: in every interleaving a revision has one row, with the body it was made of, what is queued has a row
    that says so, and a row is only given away to a queued job or to a recommendation run. -/
theorem no_note_lost (config : LaneConfig δ ϕ) (ops : List (LaneOp β)) :
    let world := Driven.afterwards (laneStep config) ops ({} : LaneWorld β δ ϕ)
    (world.notes.map NoteRow.revision).Nodup ∧ (∀ row ∈ world.notes, config.revisionOf row.body = row.revision) ∧
      (∀ revision ∈ queuedRevisions config world, ∃ row ∈ world.notes, row.revision = revision ∧ row.jobId ≠ none) ∧
      ∀ row ∈ world.notes, row.jobId ≠ none → row.revision ∈ queuedRevisions config world ∨ Recommended world row.revision := by
  intro world
  have hsound : LanesSound config world := lanesSound_afterwards config ops
  exact ⟨hsound.keys, hsound.bodies, hsound.stored, hsound.assigned⟩

end OneLane

/-- Notes and hashes as they are. -/
def plainConfig : LaneConfig (String × String) Unit where
  digest := fun noteId contentHash => (noteId, contentHash)
  digestAll := fun revisions => String.join (revisions.map (fun revision => revision.1 ++ revision.2))
  policy := ()

def plainNote : NoteBody Unit := { noteId := "a", contentHash := "1", content := () }

theorem notes_go_one_way_watched : ∀ job ∈ (Driven.afterwards (laneStep plainConfig)
    [.watch "u" plainNote "watch:u" 0, .enqueue 12 1] ({} : LaneWorld Unit (String × String) Unit)).jobs,
    ("a", "1") ∈ jobRevisions plainConfig job → job.jobType = .summary := by
  refine ((notes_go_one_way plainConfig [.watch "u" plainNote "watch:u" 0, .enqueue 12 1]).2.2 ⟨?_, trivial, trivial⟩).2
    ("a", "1") (List.mem_singleton.mpr rfl)
  exact fun _ _ hrow => absurd hrow List.not_mem_nil

/-- A recommendation run stores its note, and another thread queues it before it is reserved. -/
theorem recommended_note_is_screened : ¬ ∀ (ops : List (LaneOp Unit)) (revision : String × String),
    Recommended (Driven.afterwards (laneStep plainConfig) ops ({} : LaneWorld Unit (String × String) Unit)) revision →
      revision ∉ queuedRevisions plainConfig (Driven.afterwards (laneStep plainConfig) ops {}) := by
  intro h
  refine h [.recommend ⟨"r", plainNote, 1⟩ 0, .enqueue 12 1, .reserve 0 2] ("a", "1") ?_ (by decide +kernel)
  exact ⟨⟨"r", ("a", "1"), "a", 1, 2⟩, List.mem_singleton.mpr rfl, rfl⟩

end TradingHarness.Xhs
