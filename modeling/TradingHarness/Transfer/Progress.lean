import Mathlib.Data.List.Perm.Subperm
import TradingHarness.Transfer.Journal

set_option autoImplicit false

/-! # Exports move on

A page that has room for new rows ends behind its cursor. Exports that each have it reach the end of the
journal. -/

namespace TradingHarness

variable (journal : Journal) (requestedAfter : ℕ) (limit : ℤ)

/-! ## The rows of a page -/

theorem boundedLimit_pos : 0 < boundedLimit limit := by
  unfold boundedLimit
  omega

theorem Journal.eq_of_sequence {journal : Journal} {first second : Change} (hfirst : first ∈ journal.changes)
    (hsecond : second ∈ journal.changes) (h : first.sequence = second.sequence) : first = second :=
  List.inj_on_of_nodup_map journal.nodup hfirst hsecond h

theorem mem_of_mem_page {change : Change} (h : change ∈ pageRows journal requestedAfter limit) :
    change ∈ journal.changes ∧ replayFrom requestedAfter < change.sequence := by
  have hmem := (List.mem_insertionSort sequenceLe).mp (List.mem_of_mem_take h)
  rw [List.mem_filter, decide_eq_true_iff] at hmem
  exact hmem

theorem sorted_nodup : ((journal.changes.filter (fun change => replayFrom requestedAfter < change.sequence)
    ).insertionSort sequenceLe).Nodup :=
  (List.perm_insertionSort sequenceLe _).nodup_iff.mpr ((List.Nodup.of_map _ journal.nodup).filter _)

theorem page_nodup : (pageRows journal requestedAfter limit).Nodup :=
  (sorted_nodup journal requestedAfter).sublist (List.take_sublist _ _)

theorem mem_page_of_lt {row change : Change} (hrow : row ∈ pageRows journal requestedAfter limit)
    (hchange : change ∈ journal.changes) (hfrom : replayFrom requestedAfter < change.sequence)
    (h : change.sequence < row.sequence) : change ∈ pageRows journal requestedAfter limit := by
  have hmem : change ∈ (journal.changes.filter (fun change =>
      replayFrom requestedAfter < change.sequence)).insertionSort sequenceLe := by
    rw [List.mem_insertionSort, List.mem_filter, decide_eq_true_iff]
    exact ⟨hchange, hfrom⟩
  have hsorted := List.pairwise_insertionSort sequenceLe
    (journal.changes.filter (fun change => replayFrom requestedAfter < change.sequence))
  unfold pageRows at hrow ⊢
  rw [← List.take_append_drop (boundedLimit limit) (List.insertionSort sequenceLe _),
    List.mem_append] at hmem
  rcases hmem with hmem | hmem
  · exact hmem
  · rw [← List.take_append_drop (boundedLimit limit) (List.insertionSort sequenceLe _),
      List.pairwise_append] at hsorted
    have hle : row.sequence ≤ change.sequence := hsorted.2.2 row hrow change hmem
    omega

theorem mem_page_of_short {change : Change}
    (hshort : (pageRows journal requestedAfter limit).length < boundedLimit limit)
    (hchange : change ∈ journal.changes) (hfrom : replayFrom requestedAfter < change.sequence) :
    change ∈ pageRows journal requestedAfter limit := by
  unfold pageRows at hshort ⊢
  rw [List.length_take] at hshort
  rw [List.take_of_length_le (by omega), List.mem_insertionSort, List.mem_filter, decide_eq_true_iff]
  exact ⟨hchange, hfrom⟩

/-! ## Where a page ends -/

theorem le_lastSequence {rows : List Change} {row : Change} (h : row ∈ rows) :
    row.sequence ≤ lastSequence rows requestedAfter := by
  unfold lastSequence
  rcases hmax : (rows.map Change.sequence).max? with _ | last
  · rw [List.max?_eq_none_iff, List.map_eq_nil_iff] at hmax
    rw [hmax] at h
    exact absurd h List.not_mem_nil
  · exact (List.max?_eq_some_iff.mp hmax).2 _ (List.mem_map_of_mem h)

theorem lastSequence_cases (rows : List Change) :
    (rows = [] ∧ lastSequence rows requestedAfter = requestedAfter) ∨
      ∃ row ∈ rows, row.sequence = lastSequence rows requestedAfter := by
  unfold lastSequence
  rcases hmax : (rows.map Change.sequence).max? with _ | last
  · rw [List.max?_eq_none_iff, List.map_eq_nil_iff] at hmax
    exact Or.inl ⟨hmax, rfl⟩
  · exact Or.inr (List.mem_map.mp (List.max?_eq_some_iff.mp hmax).1)

theorem exportChanges_ok {batch : Batch} (h : exportChanges journal requestedAfter limit = .ok batch) :
    batch.requestedAfter = requestedAfter ∧ batch.rows = pageRows journal requestedAfter limit ∧
      batch.nextSequence = lastSequence batch.rows requestedAfter ∧
      batch.hasMore = decide (boundedLimit limit ≤ batch.rows.length) := by
  unfold exportChanges at h
  dsimp only at h
  split at h
  · exact absurd h (by simp)
  · rw [← Except.ok.inj h]
    exact ⟨rfl, rfl, rfl, rfl⟩

/-! ## Room -/

theorem mem_windowRows {change : Change} : change ∈ windowRows journal requestedAfter ↔
    change ∈ journal.changes ∧ replayFrom requestedAfter < change.sequence ∧
      change.sequence ≤ requestedAfter := by
  unfold windowRows
  rw [List.mem_filter, Bool.and_eq_true, decide_eq_true_iff, decide_eq_true_iff]

theorem length_le_of_subset {rows others : List Change} (hnodup : rows.Nodup) (h : rows ⊆ others) :
    rows.length ≤ others.length :=
  (List.subperm_of_subset hnodup h).length_le

theorem windowRows_nodup : (windowRows journal requestedAfter).Nodup :=
  (List.Nodup.of_map _ journal.nodup).filter _

theorem newer_row_of_length (h : (windowRows journal requestedAfter).length
    < (pageRows journal requestedAfter limit).length) :
    ∃ row ∈ pageRows journal requestedAfter limit, requestedAfter < row.sequence := by
  by_contra hnone
  push Not at hnone
  have hsubset : pageRows journal requestedAfter limit ⊆ windowRows journal requestedAfter := by
    intro row hrow
    obtain ⟨hmem, hfrom⟩ := mem_of_mem_page journal requestedAfter limit hrow
    exact (mem_windowRows journal requestedAfter).mpr ⟨hmem, hfrom, hnone row hrow⟩
  have hle := length_le_of_subset (page_nodup journal requestedAfter limit) hsubset
  omega

theorem length_of_newer_row {row : Change} (hrow : row ∈ pageRows journal requestedAfter limit)
    (h : requestedAfter < row.sequence) :
    (windowRows journal requestedAfter).length < (pageRows journal requestedAfter limit).length := by
  have hnot : row ∉ windowRows journal requestedAfter := by
    rw [mem_windowRows]
    rintro ⟨-, -, hle⟩
    omega
  have hsubset : row :: windowRows journal requestedAfter ⊆ pageRows journal requestedAfter limit := by
    rw [List.cons_subset]
    refine ⟨hrow, fun change hchange => ?_⟩
    obtain ⟨hmem, hfrom, hle⟩ := (mem_windowRows journal requestedAfter).mp hchange
    exact mem_page_of_lt journal requestedAfter limit hrow hmem hfrom (by omega)
  exact length_le_of_subset (List.nodup_cons.mpr ⟨hnot, windowRows_nodup journal requestedAfter⟩) hsubset

theorem length_page_le : (pageRows journal requestedAfter limit).length ≤ boundedLimit limit :=
  List.length_take_le _ _

theorem newer_row_iff (hnewer : ∃ change ∈ journal.changes, requestedAfter < change.sequence) :
    (∃ row ∈ pageRows journal requestedAfter limit, requestedAfter < row.sequence) ↔
      (windowRows journal requestedAfter).length < boundedLimit limit := by
  constructor
  · rintro ⟨row, hrow, h⟩
    exact lt_of_lt_of_le (length_of_newer_row journal requestedAfter limit hrow h)
      (length_page_le journal requestedAfter limit)
  · intro hroom
    by_cases hfull : (pageRows journal requestedAfter limit).length = boundedLimit limit
    · exact newer_row_of_length journal requestedAfter limit (by omega)
    · have hle := length_page_le journal requestedAfter limit
      obtain ⟨change, hchange, h⟩ := hnewer
      refine ⟨change, mem_page_of_short journal requestedAfter limit (by omega) hchange ?_, h⟩
      unfold replayFrom
      omega

/-- Without a newer entry, a page ends at the cursor exactly where the window is empty, or holds the entry of
    the cursor and fits the page. -/
theorem page_ends_iff (hnone : ¬ ∃ change ∈ journal.changes, requestedAfter < change.sequence) :
    requestedAfter ≤ lastSequence (pageRows journal requestedAfter limit) requestedAfter ↔
      windowRows journal requestedAfter = [] ∨
        ((∃ change ∈ journal.changes, change.sequence = requestedAfter) ∧
          (windowRows journal requestedAfter).length ≤ boundedLimit limit) := by
  push Not at hnone
  have hwindow : ∀ row ∈ pageRows journal requestedAfter limit, row ∈ windowRows journal requestedAfter := by
    intro row hrow
    obtain ⟨hmem, hfrom⟩ := mem_of_mem_page journal requestedAfter limit hrow
    exact (mem_windowRows journal requestedAfter).mpr ⟨hmem, hfrom, hnone row hmem⟩
  constructor
  · intro hle
    rcases lastSequence_cases requestedAfter (pageRows journal requestedAfter limit) with
      ⟨hempty, -⟩ | ⟨row, hrow, hlast⟩
    · -- a page is empty only where the window is
      refine Or.inl (List.eq_nil_iff_forall_not_mem.mpr (fun change hchange => ?_))
      obtain ⟨hmem, hfrom, -⟩ := (mem_windowRows journal requestedAfter).mp hchange
      have hshort : (pageRows journal requestedAfter limit).length < boundedLimit limit := by
        rw [hempty]
        exact boundedLimit_pos limit
      have hpage := mem_page_of_short journal requestedAfter limit hshort hmem hfrom
      rw [hempty] at hpage
      exact List.not_mem_nil hpage
    · obtain ⟨hmem, hfrom⟩ := mem_of_mem_page journal requestedAfter limit hrow
      have hrequested : row.sequence = requestedAfter := by
        have := hnone row hmem
        omega
      refine Or.inr ⟨⟨row, hmem, hrequested⟩, ?_⟩
      have hsubset : windowRows journal requestedAfter ⊆ pageRows journal requestedAfter limit := by
        intro change hchange
        obtain ⟨hchangeMem, hchangeFrom, hchangeLe⟩ := (mem_windowRows journal requestedAfter).mp hchange
        by_cases heq : change.sequence = row.sequence
        · rw [Journal.eq_of_sequence hchangeMem hmem heq]
          exact hrow
        · exact mem_page_of_lt journal requestedAfter limit hrow hchangeMem hchangeFrom (by omega)
      exact le_trans (length_le_of_subset (windowRows_nodup journal requestedAfter) hsubset)
        (length_page_le journal requestedAfter limit)
  · rintro (hempty | ⟨⟨change, hmem, hrequested⟩, hfits⟩)
    · have hpage : pageRows journal requestedAfter limit = [] := by
        refine List.eq_nil_iff_forall_not_mem.mpr (fun row hrow => ?_)
        have hin := hwindow row hrow
        rw [hempty] at hin
        exact List.not_mem_nil hin
      rw [hpage]
      exact le_refl requestedAfter
    · by_cases hfrom : replayFrom requestedAfter < requestedAfter
      · have hpage : change ∈ pageRows journal requestedAfter limit := by
          by_contra hnot
          by_cases hfull : (pageRows journal requestedAfter limit).length = boundedLimit limit
          · have hsubset : change :: pageRows journal requestedAfter limit
                ⊆ windowRows journal requestedAfter := by
              rw [List.cons_subset, mem_windowRows]
              exact ⟨⟨hmem, by omega, by omega⟩, hwindow⟩
            have hlength := length_le_of_subset
              (List.nodup_cons.mpr ⟨hnot, page_nodup journal requestedAfter limit⟩) hsubset
            rw [List.length_cons] at hlength
            omega
          · have hle := length_page_le journal requestedAfter limit
            exact hnot (mem_page_of_short journal requestedAfter limit (by omega) hmem (by omega))
        have hle := le_lastSequence requestedAfter hpage
        omega
      · have hzero : requestedAfter = 0 := by
          unfold replayFrom changeReplayWindow at hfrom
          omega
        rw [hzero]
        exact Nat.zero_le _

theorem advances_iff {batch : Batch} (h : exportChanges journal requestedAfter limit = .ok batch) :
    Advances journal requestedAfter batch ↔ HasRoom journal requestedAfter limit := by
  obtain ⟨-, hrows, hnext, -⟩ := exportChanges_ok journal requestedAfter limit h
  unfold Advances HasRoom
  rw [hnext, hrows]
  by_cases hnewer : ∃ change ∈ journal.changes, requestedAfter < change.sequence
  · rw [if_pos hnewer, ← newer_row_iff journal requestedAfter limit hnewer]
    constructor
    · rintro ⟨-, hlt⟩
      rcases lastSequence_cases requestedAfter (pageRows journal requestedAfter limit) with
        ⟨-, hlast⟩ | ⟨row, hrow, hlast⟩
      · have := hlt hnewer
        omega
      · exact ⟨row, hrow, by rw [hlast]; exact hlt hnewer⟩
    · rintro ⟨row, hrow, hlt⟩
      have hle := le_lastSequence requestedAfter hrow
      exact ⟨by omega, fun _ => by omega⟩
  · rw [if_neg hnewer, ← page_ends_iff journal requestedAfter limit hnewer]
    exact ⟨And.left, fun hle => ⟨hle, fun h => absurd h hnewer⟩⟩

/-! ## Exports in a row -/

theorem cursorAfter_or (cursor : ℕ)
    (hroom : ∀ count, ∃ batch, exportChanges journal (cursorAfter journal limit cursor count) limit = .ok batch ∧
      HasRoom journal (cursorAfter journal limit cursor count) limit) (count : ℕ) :
    (∃ earlier, ∀ change ∈ journal.changes, change.sequence ≤ cursorAfter journal limit cursor earlier) ∨
      cursor + count ≤ cursorAfter journal limit cursor count := by
  induction count with
  | zero => exact Or.inr (le_refl cursor)
  | succ count ih =>
      rcases ih with hend | hle
      · exact Or.inl hend
      · by_cases hnewer : ∃ change ∈ journal.changes,
            cursorAfter journal limit cursor count < change.sequence
        · obtain ⟨batch, hbatch, hhas⟩ := hroom count
          have hlt := ((advances_iff journal _ limit hbatch).mpr hhas).2 hnewer
          have hnext : cursorAfter journal limit cursor (count + 1) = batch.nextSequence := by
            rw [cursorAfter, hbatch]
          rw [hnext]
          exact Or.inr (by omega)
        · push Not at hnewer
          exact Or.inl ⟨count, hnewer⟩

/-- **A page goes on exactly where it has room behind the window that is read again**, and exports that each
    have it reach the end of the journal. -/
theorem exports_advance_iff :
    (∀ requestedAfter batch, exportChanges journal requestedAfter limit = .ok batch →
      (Advances journal requestedAfter batch ↔ HasRoom journal requestedAfter limit)) ∧
    ∀ cursor, (∀ count, ∃ batch,
        exportChanges journal (cursorAfter journal limit cursor count) limit = .ok batch ∧
          HasRoom journal (cursorAfter journal limit cursor count) limit) →
      ∃ count, ∀ change ∈ journal.changes, change.sequence ≤ cursorAfter journal limit cursor count := by
  refine ⟨fun requestedAfter batch h => advances_iff journal requestedAfter limit h, fun cursor hroom => ?_⟩
  obtain ⟨bound, hbound⟩ : ∃ bound, ∀ change ∈ journal.changes, change.sequence ≤ bound :=
    ⟨lastSequence journal.changes 0, fun change hchange => le_lastSequence 0 hchange⟩
  rcases cursorAfter_or journal limit cursor hroom bound with hend | hle
  · exact hend
  · exact ⟨bound, fun change hchange => le_trans (hbound change hchange) (by omega)⟩

/-- Four entries of one table. -/
def fourChanges : Journal where
  changes := [⟨1, "intraday_scan_runs", []⟩, ⟨2, "intraday_scan_runs", []⟩, ⟨3, "intraday_scan_runs", []⟩,
    ⟨4, "intraday_scan_runs", []⟩]
  nodup := by decide

/-- A page of one row behind the third entry is spent on the first, and its cursor goes back. -/
theorem fourChanges_goes_back :
    ¬ ∀ batch, exportChanges fourChanges 3 1 = .ok batch → Advances fourChanges 3 batch := by
  intro h
  have hpage : ∃ batch, exportChanges fourChanges 3 1 = .ok batch ∧ batch.nextSequence = 1 := ⟨_, rfl, rfl⟩
  obtain ⟨batch, hbatch, hnext⟩ := hpage
  have hle := (h batch hbatch).1
  omega

end TradingHarness
