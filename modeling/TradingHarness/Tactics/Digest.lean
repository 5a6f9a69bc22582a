import TradingHarness.Library.Tally
import TradingHarness.Tactics.Scores
import Mathlib.Data.List.Sort

set_option autoImplicit false

/-! # The digest of a day

`day_digest` keeps of a settled day what the evening summary folds: per tactic the picks and a pair
of means for each recorded outcome, the sell sums per group, the sealing counts and the switch sample
(`tactic_trials.py`). A stored digest comes back with the keys of its tables in another order
(`Digest.RoundTrip`). -/

namespace TradingHarness

/-! ## The texts of the keys -/

def Entry.text : Entry → String
  | .held => "held"
  | .buyOpen => "buy_open"

def ExitKey.text : ExitKey → String
  | .sellOpen => "open"
  | .sellClose => "close"
  | .tp3 => "tp3"
  | .tp5 => "tp5"
  | .tp8 => "tp8"
  | .sl3 => "sl3"
  | .tp5Sl3StopFirst => "tp5_sl3_stop_first"
  | .tp5Sl3TargetFirst => "tp5_sl3_target_first"
  | .holdWhileSealed => "hold_while_sealed"
  | .gapRule => "gap_rule"
  | .mustRise => "must_rise"
  | .belowMa5 => "below_ma5"

/-- The measures of the room a holder had. -/
inductive RoomKey
  | s1High
  | s3High
  | s1Low

def roomKeys : List RoomKey := [.s1High, .s3High, .s1Low]

def RoomKey.text : RoomKey → String
  | .s1High => "s1_high"
  | .s3High => "s3_high"
  | .s1Low => "s1_low"

/-- `str(row.get("board_bucket"))`. -/
def boardText : Option BoardBucket → String
  | none => "None"
  | some .one => "1"
  | some .two => "2"
  | some .threePlus => "3+"

/-- `str(row.get("gap_bucket"))`. -/
def gapText : Option GapBucket → String
  | none => "None"
  | some .opensAtLimit => "opens_at_limit"
  | some .below5 => "below_-5%"
  | some .down5To2 => "-5..-2%"
  | some .down2To0 => "-2..0%"
  | some .up0To2 => "0..2%"
  | some .up2To5 => "2..5%"
  | some .up5To9 => "5..9%"
  | some .above9 => "9%+_not_at_limit"

theorem boardText_injective : Function.Injective boardText := by
  intro a b
  rcases a with _ | _ | _ | _ <;> rcases b with _ | _ | _ | _ <;> decide

theorem gapText_injective : Function.Injective gapText := by
  intro a b
  rcases a with _ | a <;> rcases b with _ | b
  · decide
  · cases b <;> decide
  · cases a <;> decide
  · cases a <;> cases b <;> decide

/-! ## Sell sums -/

/-- The numbers of `_sell_sums`; every other key of the nested tables names a group. -/
inductive TotalKey
  | sum
  | count
  | missing
  | rows
  deriving DecidableEq

/-- The nested sums of `_sell_scope_sums`. -/
abbrev SellTotals := Tally TotalKey String ℚ

/-- A row with the outcomes of its stock. -/
abbrev ScoredRow := TrialRow × Option PickEvaluation

def TrialDay.scoredRows (day : TrialDay) : List ScoredRow :=
  day.rows.map (fun row => (row, day.outcomes row.symbol))

/-- `outcome.get(key)` for the room measures. -/
def roomValue (outcome : Option PickEvaluation) (key : RoomKey) : Option ℚ :=
  outcome.bind (fun evaluation =>
    match key with
    | .s1High => evaluation.s1High
    | .s3High => evaluation.s3High
    | .s1Low => evaluation.s1Low)

def sellCell (values : List (Option ℚ)) : SellTotals :=
  let valid := values.filterMap id
  .mk [⟨.sum, valid.sum⟩, ⟨.count, valid.length⟩, ⟨.missing, values.length - valid.length⟩] []

def sellSums (rows : List ScoredRow) : SellTotals :=
  .mk [⟨.rows, rows.length⟩]
    [⟨"returns", .mk [] (Tables.entriesOf Entry.text (fun entry =>
        .mk [] (Tables.entriesOf ExitKey.text (fun exit =>
          sellCell (rows.map (fun row => (outcomeValue row.2 (.ret entry exit)).1))) exits))
        entries)⟩,
      ⟨"room", .mk [] (Tables.entriesOf RoomKey.text (fun key =>
        sellCell (rows.map (fun row => roomValue row.2 key))) roomKeys)⟩]

/-- The values of a field over some rows, each once, sorted by their text. -/
def bucketsOf {β : Type} [DecidableEq β] (field : TrialRow → β) (text : β → String)
    (rows : List ScoredRow) : List β :=
  ((rows.map (fun row => field row.1)).dedup).insertionSort (fun a b => text a ≤ text b)

/-- `by(field)`: the sums of each bucket's rows, under the bucket's text. -/
def groupsBy {β : Type} [DecidableEq β] (field : TrialRow → β) (text : β → String)
    (rows : List ScoredRow) : List (Σ _ : String, SellTotals) :=
  Tables.entriesOf text
    (fun bucket => sellSums (rows.filter (fun row => decide (field row.1 = bucket))))
    (bucketsOf field text rows)

/-- `_sell_scope_sums` of a slot's rows. -/
def sellScopeSums (slot : Slot) (rows : List ScoredRow) : SellTotals :=
  .mk []
    (⟨"all", sellSums rows⟩ ::
      ⟨"board_bucket", .mk [] (groupsBy (·.boardBucket) boardText rows)⟩ ::
      match slot with
      | .auction => [⟨"gap_bucket", .mk [] (groupsBy (·.gapBucket) gapText rows)⟩]
      | .close => [])

/-- `_seal_counts`: how many of a board bucket's rows sealed again, and of how many. -/
def sealCounts (rows : List ScoredRow) : List (Σ _ : String, ℕ × ℕ) :=
  Tables.accumulate []
    (rows.filterMap (fun row => (row.2.bind (·.sealAgain)).map
      (fun sealed => ⟨boardText row.1.boardBucket, (sealed.toNat, 1)⟩)))

/-! ## The digest -/

structure TacticDigest where
  picks : ℕ
  outcomes : List (Σ _ : OutcomeKey, Option ℚ × Option ℚ)

structure SwitchDigest where
  daily : Option ℚ
  flags : List String
  unknown : List String

/-- What `day_digest` keeps of a day, without the fingerprint of the registry. -/
structure Digest where
  tradeDate : Date
  slot : Slot
  rows : ℕ
  resolved : ℕ
  tactics : List (Σ _ : String, TacticDigest)
  sell : SellTotals
  sealed : List (Σ _ : String, ℕ × ℕ)
  switch : Option SwitchDigest

/-- `_resolved`: some entry is settled under some rule. -/
def isResolved (outcome : Option PickEvaluation) : Bool :=
  outcome.any (fun evaluation => entries.any (fun entry => exits.any (fun exit =>
    decide ((evaluation.entries entry exit).status = .settled))))

/-- The digest of one tactic on a day. -/
def tacticDigest (tactic : Tactic) (day : TrialDay) : TacticDigest :=
  let result := dayResult tactic day.rows day.day day.outcomes (recordOutcomes tactic)
  { picks := result.counts.picks
    outcomes := result.outcomes.map
      (fun item => ⟨item.1, (item.2.pickMean, item.2.difference)⟩) }

/-- The mean return of holding every row of a day over the first close. -/
def heldMean (day : TrialDay) : Option ℚ :=
  mean (day.scoredRows.map (fun row => (outcomeValue row.2 (.ret .held .sellClose)).1))

def dayDigest (tactics : List Tactic) (day : TrialDay) : Digest where
  tradeDate := day.tradeDate
  slot := day.slot
  rows := day.rows.length
  resolved := day.scoredRows.countP (fun row => isResolved row.2)
  tactics := Tables.entriesOf (·.key) (fun tactic => tacticDigest tactic day)
    (tactics.filter (fun tactic => decide (tactic.slot = day.slot)))
  sell := sellScopeSums day.slot day.scoredRows
  sealed := sealCounts day.scoredRows
  switch :=
    match day.slot with
    | .close => some { daily := heldMean day, flags := day.day.flags, unknown := day.day.unknown }
    | .auction => none

/-- What a digest may be after it was stored and read again: the keys of every table may stand in
    another order, everything else is as it was. -/
structure Digest.RoundTrip (digest stored : Digest) : Prop where
  tradeDate : stored.tradeDate = digest.tradeDate
  slot : stored.slot = digest.slot
  rows : stored.rows = digest.rows
  resolved : stored.resolved = digest.resolved
  tactics : Tables.Reordered
    (fun kept kept' => kept'.picks = kept.picks ∧ kept.outcomes.Perm kept'.outcomes)
    digest.tactics stored.tactics
  sell : Tally.Reordered digest.sell stored.sell
  sealed : digest.sealed.Perm stored.sealed
  switch : stored.switch = digest.switch

/-! ## Rows put together -/

theorem numbers_sellCell (values : List (Option ℚ)) :
    (sellCell values).numbers
      = [⟨.sum, (values.filterMap id).sum⟩, ⟨.count, ((values.filterMap id).length : ℚ)⟩,
          ⟨.missing, (values.length : ℚ) - (values.filterMap id).length⟩] := rfl

theorem numbers_sellSums (rows : List ScoredRow) :
    (sellSums rows).numbers = [⟨.rows, (rows.length : ℚ)⟩] := rfl

theorem sellCell_append (xs ys : List (Option ℚ)) :
    Tally.AddsUp (sellCell (xs ++ ys)) (sellCell xs) (sellCell ys) := by
  refine Tally.addsUp_mk _ _ _ ?_ (fun key => Tally.GroupAddsUp.absent)
  intro name
  have hmissing : ((xs ++ ys).length : ℚ) - ((xs ++ ys).filterMap id).length
      = (xs.length - (xs.filterMap id).length) + (ys.length - (ys.filterMap id).length) := by
    rw [List.filterMap_append, List.length_append, List.length_append]
    push_cast
    ring
  rw [numbers_sellCell, numbers_sellCell, numbers_sellCell, hmissing, List.filterMap_append,
    List.sum_append, List.length_append, Nat.cast_add]
  exact Tally.numbersAddUp_cons _ _ _ _ _ _ name
    (Tally.numbersAddUp_cons _ _ _ _ _ _ name (Tally.numbersAddUp_cons _ _ _ _ _ _ name rfl))

theorem sellSums_append (xs ys : List ScoredRow) :
    Tally.AddsUp (sellSums (xs ++ ys)) (sellSums xs) (sellSums ys) := by
  have hnodupEntries : (entries.map Entry.text).Nodup := by decide
  have hnodupExits : (exits.map ExitKey.text).Nodup := by decide
  have hnodupRooms : (roomKeys.map RoomKey.text).Nodup := by decide
  refine Tally.addsUp_mk _ _ _ ?_ ?_
  · intro name
    rw [numbers_sellSums, numbers_sellSums, numbers_sellSums, List.length_append, Nat.cast_add]
    exact Tally.numbersAddUp_cons _ _ _ _ _ _ name rfl
  · intro key
    refine Tally.groupAddsUp_cons _ _ _ _ _ _ _ ?_ key
      (Tally.groupAddsUp_cons _ _ _ _ _ _ _ ?_ key Tally.GroupAddsUp.absent)
    · refine Tally.addsUp_mk _ _ _ (fun name => rfl)
        (Tally.groupAddsUp_entriesOf _ _ hnodupEntries _ _ _ ?_)
      intro entry _
      refine Tally.addsUp_mk _ _ _ (fun name => rfl)
        (Tally.groupAddsUp_entriesOf _ _ hnodupExits _ _ _ ?_)
      intro exit _
      rw [List.map_append]
      exact sellCell_append _ _
    · refine Tally.addsUp_mk _ _ _ (fun name => rfl)
        (Tally.groupAddsUp_entriesOf _ _ hnodupRooms _ _ _ ?_)
      intro room _
      rw [List.map_append]
      exact sellCell_append _ _

section Buckets

variable {β : Type} [DecidableEq β] (field : TrialRow → β) (text : β → String)

theorem mem_bucketsOf (rows : List ScoredRow) (bucket : β) :
    bucket ∈ bucketsOf field text rows ↔ ∃ row ∈ rows, field row.1 = bucket := by
  unfold bucketsOf
  rw [List.mem_insertionSort, List.mem_dedup, List.mem_map]

theorem nodup_bucketsOf (htext : Function.Injective text) (rows : List ScoredRow) :
    ((bucketsOf field text rows).map text).Nodup := by
  refine (List.nodup_map_iff htext).mpr ?_
  unfold bucketsOf
  exact (List.perm_insertionSort _ _).nodup_iff.mpr (List.nodup_dedup _)

theorem dlookup_groupsBy (htext : Function.Injective text) (rows : List ScoredRow) (bucket : β) :
    (groupsBy field text rows).dlookup (text bucket)
      = if ∃ row ∈ rows, field row.1 = bucket then
          some (sellSums (rows.filter (fun row => decide (field row.1 = bucket))))
        else none := by
  unfold groupsBy
  by_cases hmem : ∃ row ∈ rows, field row.1 = bucket
  · rw [if_pos hmem]
    exact Tables.dlookup_entriesOf_of_mem text _ _ bucket (nodup_bucketsOf field text htext rows)
      ((mem_bucketsOf field text rows bucket).mpr hmem)
  · rw [if_neg hmem]
    refine Tables.dlookup_entriesOf_of_notMem text _ _ _ ?_
    intro hkey
    obtain ⟨bucket', hmem', hbucket⟩ := List.mem_map.mp hkey
    rw [htext hbucket] at hmem'
    exact hmem ((mem_bucketsOf field text rows bucket).mp hmem')

theorem filter_bucket_eq_nil (rows : List ScoredRow) (bucket : β)
    (h : ¬ ∃ row ∈ rows, field row.1 = bucket) :
    rows.filter (fun row => decide (field row.1 = bucket)) = [] := by
  rw [List.filter_eq_nil_iff]
  intro row hrow hbucket
  exact h ⟨row, hrow, of_decide_eq_true hbucket⟩

theorem groupsBy_append (htext : Function.Injective text) (xs ys : List ScoredRow) (key : String) :
    Tally.GroupAddsUp ((groupsBy field text (xs ++ ys)).dlookup key)
      ((groupsBy field text xs).dlookup key) ((groupsBy field text ys).dlookup key) := by
  by_cases hkey : ∃ bucket, text bucket = key
  · obtain ⟨bucket, hbucket⟩ := hkey
    subst hbucket
    have happend : (∃ row ∈ xs ++ ys, field row.1 = bucket) ↔
        (∃ row ∈ xs, field row.1 = bucket) ∨ ∃ row ∈ ys, field row.1 = bucket := by
      simp only [List.mem_append, or_and_right, exists_or]
    rw [dlookup_groupsBy field text htext, dlookup_groupsBy field text htext,
      dlookup_groupsBy field text htext, List.filter_append]
    by_cases hxs : ∃ row ∈ xs, field row.1 = bucket
    · rw [if_pos hxs, if_pos (happend.mpr (Or.inl hxs))]
      by_cases hys : ∃ row ∈ ys, field row.1 = bucket
      · rw [if_pos hys]
        exact Tally.GroupAddsUp.both (sellSums_append _ _)
      · rw [if_neg hys, filter_bucket_eq_nil field ys bucket hys, List.append_nil]
        exact Tally.GroupAddsUp.left _
    · rw [if_neg hxs, filter_bucket_eq_nil field xs bucket hxs, List.nil_append]
      by_cases hys : ∃ row ∈ ys, field row.1 = bucket
      · rw [if_pos hys, if_pos (happend.mpr (Or.inr hys))]
        exact Tally.GroupAddsUp.right _
      · rw [if_neg hys, if_neg (fun h => (happend.mp h).elim hxs hys)]
        exact Tally.GroupAddsUp.absent
  · have hnone : ∀ rows, (groupsBy field text rows).dlookup key = none := by
      intro rows
      refine Tables.dlookup_entriesOf_of_notMem text _ _ key ?_
      intro hmem
      obtain ⟨bucket, -, hbucket⟩ := List.mem_map.mp hmem
      exact hkey ⟨bucket, hbucket⟩
    rw [hnone, hnone, hnone]
    exact Tally.GroupAddsUp.absent

end Buckets

/-- **Sell sums of rows put together** are the sums of the parts, at every place. -/
theorem sellScopeSums_append (slot : Slot) (xs ys : List ScoredRow) :
    Tally.AddsUp (sellScopeSums slot (xs ++ ys)) (sellScopeSums slot xs)
      (sellScopeSums slot ys) := by
  refine Tally.addsUp_mk _ _ _ (fun name => rfl) ?_
  intro key
  refine Tally.groupAddsUp_cons _ _ _ _ _ _ _ (sellSums_append xs ys) key
    (Tally.groupAddsUp_cons _ _ _ _ _ _ _ ?_ key ?_)
  · exact Tally.addsUp_mk _ _ _ (fun name => rfl) (groupsBy_append _ _ boardText_injective xs ys)
  · rcases slot with _ | _
    · exact Tally.GroupAddsUp.absent
    · refine Tally.groupAddsUp_cons _ _ _ _ _ _ _ ?_ key Tally.GroupAddsUp.absent
      exact Tally.addsUp_mk _ _ _ (fun name => rfl) (groupsBy_append _ _ gapText_injective xs ys)

theorem sealCounts_append (xs ys : List ScoredRow) (bucket : String) :
    (sealCounts (xs ++ ys)).dlookup bucket
      = Option.merge (· + ·) ((sealCounts xs).dlookup bucket) ((sealCounts ys).dlookup bucket) := by
  unfold sealCounts
  rw [List.filterMap_append, Tables.accumulate_append]
  exact Tables.dlookup_accumulate bucket _ _

/-! ## No key stands twice -/

theorem sellCell_distinct (values : List (Option ℚ)) : (sellCell values).Distinct := by
  refine Tally.Distinct.mk ?_ List.nodupKeys_nil (by simp)
  unfold List.NodupKeys
  show [TotalKey.sum, TotalKey.count, TotalKey.missing].Nodup
  decide

theorem entriesOf_distinct {ι : Type} (name : ι → String) (value : ι → SellTotals)
    (items : List ι) (hnodup : (items.map name).Nodup)
    (hvalue : ∀ item ∈ items, (value item).Distinct) :
    (Tally.mk [] (Tables.entriesOf name value items) : SellTotals).Distinct := by
  refine Tally.Distinct.mk List.nodupKeys_nil (Tables.nodupKeys_entriesOf name value items hnodup) ?_
  intro group hgroup
  obtain ⟨item, hmem, hitem⟩ := List.mem_map.mp hgroup
  subst hitem
  exact hvalue item hmem

theorem sellSums_distinct (rows : List ScoredRow) : (sellSums rows).Distinct := by
  refine Tally.Distinct.mk ?_ ?_ ?_
  · exact List.nodupKeys_singleton _
  · unfold List.NodupKeys
    show ["returns", "room"].Nodup
    decide
  · intro group hgroup
    rcases List.mem_cons.mp hgroup with hreturns | hroom
    · subst hreturns
      refine entriesOf_distinct _ _ _ (by decide) ?_
      intro entry _
      exact entriesOf_distinct _ _ _ (by decide) (fun exit _ => sellCell_distinct _)
    · obtain rfl := List.mem_singleton.mp hroom
      exact entriesOf_distinct _ _ _ (by decide) (fun key _ => sellCell_distinct _)

theorem groupsBy_distinct {β : Type} [DecidableEq β] (field : TrialRow → β) (text : β → String)
    (htext : Function.Injective text) (rows : List ScoredRow) :
    (Tally.mk [] (groupsBy field text rows) : SellTotals).Distinct :=
  entriesOf_distinct text _ _ (nodup_bucketsOf field text htext rows)
    (fun _ _ => sellSums_distinct _)

theorem sellScopeSums_distinct (slot : Slot) (rows : List ScoredRow) :
    (sellScopeSums slot rows).Distinct := by
  have hall := sellSums_distinct rows
  have hboard := groupsBy_distinct (·.boardBucket) boardText boardText_injective rows
  have hgap := groupsBy_distinct (·.gapBucket) gapText gapText_injective rows
  rcases slot with _ | _
  · refine Tally.Distinct.mk List.nodupKeys_nil ?_ ?_
    · unfold List.NodupKeys
      show ["all", "board_bucket"].Nodup
      decide
    · simp [hall, hboard]
  · refine Tally.Distinct.mk List.nodupKeys_nil ?_ ?_
    · unfold List.NodupKeys
      show ["all", "board_bucket", "gap_bucket"].Nodup
      decide
    · simp [hall, hboard, hgap]

theorem sealCounts_nodupKeys (rows : List ScoredRow) : (sealCounts rows).NodupKeys :=
  Tables.nodupKeys_accumulate _ _ List.nodupKeys_nil

end TradingHarness
