import TradingHarness.Bundles.MergedRows

set_option autoImplicit false

/-! # No message is lost

The merge asks only whether an official row is near. It loses nothing as long as no messages have fewer official
rows near them than they are themselves. -/

namespace TradingHarness

variable {μ ρ : Type} {bundleEntry : BundleRow μ → List (BundleBlock ρ)} {localeLe : List Char → List Char → Bool}
  {ledgerRows historyRows : List (BundleRow μ)} {row : BundleRow μ} {id : List Char}

/-! ## Twins and the ledger -/

theorem hasOfficialTwin_iff :
    hasOfficialTwin bundleEntry ledgerRows row = true ↔ ∃ official, IsTwin bundleEntry ledgerRows official row := by
  unfold hasOfficialTwin officialTimes IsTwin
  rw [List.any_map, List.any_filter]
  simp [and_assoc]

theorem mem_keptLedger : row ∈ keptLedger bundleEntry ledgerRows ↔ row ∈ ledgerRows
    ∧ (isNumericId row.sourceMessageId = false ∨ hasOfficialTwin bundleEntry ledgerRows row = false) := by
  simp [keptLedger]

theorem mem_droppedIds : id ∈ droppedIds bundleEntry ledgerRows ↔ ∃ row ∈ ledgerRows,
    (isNumericId row.sourceMessageId = true ∧ hasOfficialTwin bundleEntry ledgerRows row = true)
      ∧ row.sourceMessageId = id := by
  simp [droppedIds, and_assoc]

theorem kept_or_dropped (h : row ∈ ledgerRows) :
    row ∈ keptLedger bundleEntry ledgerRows ∨ row.sourceMessageId ∈ droppedIds bundleEntry ledgerRows := by
  rw [mem_keptLedger, mem_droppedIds]
  rcases hnumeric : isNumericId row.sourceMessageId with - | -
  · exact Or.inl ⟨h, Or.inl rfl⟩
  · rcases htwin : hasOfficialTwin bundleEntry ledgerRows row with - | -
    · exact Or.inl ⟨h, Or.inr rfl⟩
    · exact Or.inr ⟨row, h, ⟨hnumeric, htwin⟩, rfl⟩

/-! ## The loop over the history -/

theorem of_mem_addedHistory {byId : List (List Char)}
    (h : row ∈ addedHistory bundleEntry ledgerRows byId historyRows) :
    row ∈ historyRows ∧ row.sourceMessageId ∉ byId
      ∧ row.sourceMessageId ∉ droppedIds bundleEntry ledgerRows
      ∧ hasOfficialTwin bundleEntry ledgerRows row = false := by
  induction historyRows generalizing byId with
  | nil => simp [addedHistory] at h
  | cons first rest ih =>
      rw [addedHistory] at h
      split at h
      next =>
        obtain ⟨hrest, hkept⟩ := ih h
        exact ⟨List.mem_cons_of_mem _ hrest, hkept⟩
      next hnew =>
        rcases List.mem_cons.mp h with rfl | hlater
        · simp only [List.contains_eq_mem, decide_eq_true_eq, not_or, Bool.not_eq_true] at hnew
          exact ⟨List.mem_cons_self, hnew⟩
        · obtain ⟨hrest, hbefore, hkept⟩ := ih hlater
          exact ⟨List.mem_cons_of_mem _ hrest, fun hmem => hbefore (List.mem_cons_of_mem _ hmem), hkept⟩

theorem addedHistory_nodup (byId : List (List Char)) (historyRows : List (BundleRow μ)) :
    ((addedHistory bundleEntry ledgerRows byId historyRows).map BundleRow.sourceMessageId).Nodup := by
  induction historyRows generalizing byId with
  | nil => exact List.nodup_nil
  | cons first rest ih =>
      rw [addedHistory]
      split
      next => exact ih byId
      next =>
        rw [List.map_cons, List.nodup_cons]
        refine ⟨fun hagain => ?_, ih _⟩
        obtain ⟨later, hlater, hid⟩ := List.mem_map.mp hagain
        exact (of_mem_addedHistory hlater).2.1 (by rw [hid]; exact List.mem_cons_self)

theorem added_of_no_twin {byId : List (List Char)} (hrow : row ∈ historyRows)
    (htwin : hasOfficialTwin bundleEntry ledgerRows row = false)
    (hdropped : row.sourceMessageId ∉ droppedIds bundleEntry ledgerRows) :
    row.sourceMessageId ∈ byId ∨ row.sourceMessageId
      ∈ (addedHistory bundleEntry ledgerRows byId historyRows).map BundleRow.sourceMessageId := by
  induction historyRows generalizing byId with
  | nil => simp at hrow
  | cons first rest ih =>
      rw [addedHistory]
      rcases List.mem_cons.mp hrow with rfl | hrest
      · by_cases hthere : row.sourceMessageId ∈ byId
        · exact Or.inl hthere
        · rw [if_neg (by simp [hthere, hdropped, htwin])]
          exact Or.inr List.mem_cons_self
      · split
        next => exact ih hrest
        next =>
          rw [List.map_cons, List.mem_cons]
          have hone : row.sourceMessageId ∈ first.sourceMessageId :: byId ∨ _ := ih hrest
          rcases hone with hthere | hadded
          · exact (List.mem_cons.mp hthere).elim (fun hfirst => Or.inr (Or.inl hfirst)) Or.inl
          · exact Or.inr (Or.inr hadded)

/-! ## The output -/

theorem sortMerged_perm (rows : List (BundleRow μ)) : (sortMerged localeLe rows).Perm rows :=
  (List.perm_insertionSort _ _).trans (List.perm_insertionSort _ _)

theorem sortMerged_sorted (rows : List (BundleRow μ)) : (sortMerged localeLe rows).Pairwise
    (fun earlier later => earlier.sourceCreateTime ≤ later.sourceCreateTime) := by
  have : Std.Total (fun left right : BundleRow μ => left.sourceCreateTime ≤ right.sourceCreateTime) :=
    ⟨fun left right => le_total left.sourceCreateTime right.sourceCreateTime⟩
  have : IsTrans (BundleRow μ) (fun left right => left.sourceCreateTime ≤ right.sourceCreateTime) :=
    ⟨fun _ _ _ => le_trans⟩
  exact List.pairwise_insertionSort _ _

theorem mem_merged : row ∈ (mergeHistoryRows bundleEntry localeLe ledgerRows historyRows).rows
    ↔ row ∈ keptLedger bundleEntry ledgerRows
      ∨ row ∈ addedHistory bundleEntry ledgerRows
          ((keptLedger bundleEntry ledgerRows).map BundleRow.sourceMessageId) historyRows := by
  unfold mergeHistoryRows
  rw [(sortMerged_perm _).mem_iff, List.mem_append]

section

variable (h : row ∈ (mergeHistoryRows bundleEntry localeLe ledgerRows historyRows).rows)

include h

theorem rowOf_of_merged :
    RowOf ledgerRows historyRows row.sourceMessageId row := by
  refine ⟨rfl, ?_⟩
  rcases mem_merged.mp h with hkept | hadded
  · exact Or.inl (mem_keptLedger.mp hkept).1
  · obtain ⟨hhistory, hnew, hdropped, -⟩ := of_mem_addedHistory hadded
    refine Or.inr ⟨hhistory, fun hledger => ?_⟩
    obtain ⟨other, hother, hid⟩ := List.mem_map.mp hledger
    rw [← hid] at hnew hdropped
    have hone : other ∈ keptLedger bundleEntry ledgerRows ∨ _ := kept_or_dropped hother
    rcases hone with hstays | hdrop
    · exact hnew (List.mem_map_of_mem hstays)
    · exact hdropped hdrop

theorem no_twin_of_merged :
    (row ∈ ledgerRows ∧ isNumericId row.sourceMessageId = false)
      ∨ hasOfficialTwin bundleEntry ledgerRows row = false := by
  rcases mem_merged.mp h with hkept | hadded
  · obtain ⟨hledger, hofficial | htwin⟩ := mem_keptLedger.mp hkept
    · exact Or.inl ⟨hledger, hofficial⟩
    · exact Or.inr htwin
  · exact Or.inr (of_mem_addedHistory hadded).2.2.2

end

/-- **The ids that the output does not have are those of which every row has a twin.** -/
theorem lostIds_eq : lostIds ledgerRows historyRows (mergeHistoryRows bundleEntry localeLe ledgerRows historyRows).rows
    = {id | Doubled bundleEntry ledgerRows historyRows id} := by
  ext id
  constructor
  · rintro ⟨hrow, hlost⟩
    refine ⟨hrow, fun row hof => ?_⟩
    obtain ⟨rfl, hledger | ⟨hhistory, hnew⟩⟩ := hof
    · -- a row of the ledger that is not in the output was dropped
      by_cases hkept : row ∈ keptLedger bundleEntry ledgerRows
      · exact absurd (List.mem_map_of_mem (mem_merged.mpr (Or.inl hkept))) hlost
      · rw [mem_keptLedger] at hkept
        simp only [hledger, true_and, not_or, Bool.not_eq_false] at hkept
        exact ⟨hasOfficialTwin_iff.mp hkept.2, fun _ => hkept.1⟩
    · refine ⟨?_, fun hledger => absurd (List.mem_map_of_mem hledger) hnew⟩
      rw [← hasOfficialTwin_iff]
      by_contra htwin
      have hdropped : row.sourceMessageId ∉ droppedIds bundleEntry ledgerRows := by
        intro hdrop
        obtain ⟨other, hother, -, hid⟩ := mem_droppedIds.mp hdrop
        exact hnew (hid ▸ List.mem_map_of_mem hother)
      have hone : row.sourceMessageId ∈ (keptLedger bundleEntry ledgerRows).map BundleRow.sourceMessageId ∨ _ :=
        added_of_no_twin hhistory (by simpa using htwin) hdropped
      rcases hone with hthere | hadded
      · obtain ⟨other, hother, hid⟩ := List.mem_map.mp hthere
        exact hnew (hid ▸ List.mem_map_of_mem (mem_keptLedger.mp hother).1)
      · obtain ⟨other, hother, hid⟩ := List.mem_map.mp hadded
        exact hlost (hid ▸ List.mem_map_of_mem (mem_merged.mpr (Or.inr hother)))
  · rintro ⟨hrow, hdoubled⟩
    refine ⟨hrow, fun hthere => ?_⟩
    obtain ⟨row, hmerged, rfl⟩ := List.mem_map.mp hthere
    obtain ⟨htwin, hnumeric⟩ := hdoubled row (rowOf_of_merged hmerged)
    rcases no_twin_of_merged hmerged with ⟨hledger, hofficial⟩ | hnone
    · rw [hnumeric hledger] at hofficial
      exact absurd hofficial (by simp)
    · rw [hasOfficialTwin_iff.mpr htwin] at hnone
      exact absurd hnone (by simp)

section

variable (hids : (ledgerRows.map BundleRow.sourceMessageId).Nodup)

include hids

theorem merged_distinct :
    ((mergeHistoryRows bundleEntry localeLe ledgerRows historyRows).rows.map BundleRow.sourceMessageId).Nodup := by
  unfold mergeHistoryRows
  rw [((sortMerged_perm _).map _).nodup_iff, List.map_append, List.nodup_append]
  refine ⟨hids.sublist ((List.filter_sublist).map _), addedHistory_nodup _ _, ?_⟩
  rintro kept hkept added hadded rfl
  obtain ⟨row, hrow, hid⟩ := List.mem_map.mp hadded
  exact (of_mem_addedHistory hrow).2.1 (hid ▸ hkept)

theorem ledger_wins (hledger : row ∈ ledgerRows)
    (hthere : row.sourceMessageId
      ∈ (mergeHistoryRows bundleEntry localeLe ledgerRows historyRows).rows.map BundleRow.sourceMessageId) :
    row ∈ (mergeHistoryRows bundleEntry localeLe ledgerRows historyRows).rows := by
  obtain ⟨other, hother, hid⟩ := List.mem_map.mp hthere
  obtain ⟨-, hsame | ⟨-, hnew⟩⟩ := rowOf_of_merged hother
  · obtain rfl := List.inj_on_of_nodup_map hids hsame hledger hid
    exact hother
  · exact absurd (List.mem_map_of_mem hledger) (hid ▸ hnew)

end

theorem finite_standsFor (id : List Char) :
    {official | StandsFor bundleEntry ledgerRows historyRows id official}.Finite := by
  refine Set.Finite.subset (List.finite_toSet ledgerRows) ?_
  rintro official ⟨row, -, hledger, -⟩
  exact hledger

/-- **The merge loses no message if and only if no messages that have official rows near them have fewer of these
    between them than they are themselves.** -/
theorem merge_loses_nothing_iff (bundleEntry : BundleRow μ → List (BundleBlock ρ))
    (localeLe : List Char → List Char → Bool) (ledgerRows historyRows : List (BundleRow μ))
    (hids : (ledgerRows.map BundleRow.sourceMessageId).Nodup) :
    LosesNothing bundleEntry ledgerRows historyRows
        (mergeHistoryRows bundleEntry localeLe ledgerRows historyRows)
      ↔ Pairing.Enough {id | Doubled bundleEntry ledgerRows historyRows id}
          (StandsFor bundleEntry ledgerRows historyRows) := by
  rw [← Pairing.pairable_iff_enough (fun id _ => finite_standsFor id), ← @lostIds_eq μ ρ bundleEntry localeLe]
  constructor
  · exact fun h => h.paired
  · intro hpaired
    refine ⟨fun row hledger hofficial => ?_, fun row hledger hthere => ledger_wins hids hledger hthere,
      fun row hrow => rowOf_of_merged hrow, hpaired, merged_distinct hids, sortMerged_sorted _, ?_⟩
    · exact mem_merged.mpr (Or.inl (mem_keptLedger.mpr ⟨hledger, Or.inl hofficial⟩))
    · unfold mergeHistoryRows
      rw [(sortMerged_perm _).length_eq, List.length_append]

/-- A text message of the history, or of the ledger. -/
def textRow (id : List Char) (time : ℚ) (text : List Char) : BundleRow (List Char) := ⟨id, time, text⟩

def textEntry (row : BundleRow (List Char)) : List (BundleBlock Unit) := [.text row.message]

/-- The official row of a greeting. -/
def greeting : BundleRow (List Char) := textRow ['o', 'm'] 0 ['早']

theorem eq_greeting_of_standsFor {historyRows : List (BundleRow (List Char))} {id : List Char}
    {official : BundleRow (List Char)} (h : StandsFor textEntry [greeting] historyRows id official) :
    official = greeting := by
  obtain ⟨row, -, hledger, -⟩ := h
  exact List.mem_singleton.mp hledger

/-- A greeting that the ledger has under its official id and the history under a number is one message. -/
theorem merge_loses_nothing_greeting :
    LosesNothing textEntry [greeting] [textRow ['1'] 1000 ['早']]
      (mergeHistoryRows textEntry (fun _ _ => true) [greeting] [textRow ['1'] 1000 ['早']]) := by
  refine (merge_loses_nothing_iff textEntry (fun _ _ => true) [greeting] [textRow ['1'] 1000 ['早']]
    (by decide)).mpr ((Pairing.pairable_iff_enough (fun id _ => finite_standsFor id)).mp ?_)
  -- the number is the only id that is doubled
  have honly : ∀ id, Doubled textEntry [greeting] [textRow ['1'] 1000 ['早']] id → id = ['1'] := by
    rintro id ⟨⟨row, rfl, hledger | ⟨hhistory, -⟩⟩, hdoubled⟩
    · have hnumeric := (hdoubled row ⟨rfl, Or.inl hledger⟩).2 hledger
      obtain rfl := List.mem_singleton.mp hledger
      exact absurd hnumeric (by decide)
    · obtain rfl := List.mem_singleton.mp hhistory
      rfl
  refine ⟨fun _ => greeting, fun first second _ => ?_, fun member => ?_⟩
  · exact Subtype.ext ((honly _ first.2).trans (honly _ second.2).symm)
  · rw [honly _ member.2]
    change StandsFor textEntry [greeting] [textRow ['1'] 1000 ['早']] ['1'] greeting
    exact ⟨textRow ['1'] 1000 ['早'], ⟨rfl, Or.inr ⟨List.mem_singleton_self _, by decide⟩⟩,
      List.mem_singleton_self _, by decide, by decide, by decide +kernel⟩

/-- One official greeting takes two greetings out of the export. -/
theorem two_greetings_lost :
    ((mergeHistoryRows textEntry (fun _ _ => true) [greeting]
        [textRow ['1'] 1000 ['早'], textRow ['2'] 2000 ['早']]).rows = [greeting])
      ∧ ¬ LosesNothing textEntry [greeting] [textRow ['1'] 1000 ['早'], textRow ['2'] 2000 ['早']]
        (mergeHistoryRows textEntry (fun _ _ => true) [greeting]
          [textRow ['1'] 1000 ['早'], textRow ['2'] 2000 ['早']]) := by
  have hrows : (mergeHistoryRows textEntry (fun _ _ => true) [greeting]
      [textRow ['1'] 1000 ['早'], textRow ['2'] 2000 ['早']]).rows = [greeting] := by decide +kernel
  refine ⟨hrows, fun hnothing => ?_⟩
  have hpaired := hnothing.paired
  rw [hrows] at hpaired
  obtain ⟨partner, hinjective, hstands⟩ := hpaired
  have hfirst : (['1'] : List Char) ∈ lostIds [greeting] [textRow ['1'] 1000 ['早'], textRow ['2'] 2000 ['早']]
      [greeting] := ⟨⟨textRow ['1'] 1000 ['早'], rfl, Or.inr ⟨by decide, by decide⟩⟩, by decide⟩
  have hsecond : (['2'] : List Char) ∈ lostIds [greeting] [textRow ['1'] 1000 ['早'], textRow ['2'] 2000 ['早']]
      [greeting] := ⟨⟨textRow ['2'] 2000 ['早'], rfl, Or.inr ⟨by decide, by decide⟩⟩, by decide⟩
  have hsame := hinjective ((eq_greeting_of_standsFor (hstands ⟨_, hfirst⟩)).trans
    (eq_greeting_of_standsFor (hstands ⟨_, hsecond⟩)).symm)
  exact absurd hsame (by simp)

end TradingHarness
