import TradingHarness.Teacher.Placing
import Mathlib.Data.List.Perm.Basic

set_option autoImplicit false

/-! # The plans of a roll, stock by stock

A roll carries at most one plan of a symbol: the one its owning pack makes of the live plan in the symbol's row. -/

namespace TradingHarness.Teacher

/-! ## Symbols -/

theorem tsCode_eq (code : Code) : ∃ exchange : List Char, exchange.length = 3 ∧ tsCode code = code ++ exchange := by
  unfold tsCode
  split <;> exact ⟨_, rfl, rfl⟩

theorem tsCode_injective {code other : Code} (h : tsCode code = tsCode other) : code = other := by
  obtain ⟨exchange, hlength, hcode⟩ := tsCode_eq code
  obtain ⟨exchange', hlength', hother⟩ := tsCode_eq other
  rw [hcode, hother] at h
  exact (List.append_inj' h (hlength.trans hlength'.symm)).1

theorem take_tsCode {code : Code} (h : code.length = 6) : (tsCode code).take 6 = code := by
  obtain ⟨exchange, -, hcode⟩ := tsCode_eq code
  rw [hcode, ← h, List.take_left]

/-! ## Packs -/

section Packs

variable {packs : List Record} {tradeDate : Date} {lookbackDays : ℕ}

theorem mem_recentRecords {record : Record} (h : record ∈ recentRecords packs tradeDate lookbackDays) : record ∈ packs := by
  unfold recentRecords at h
  rw [(List.perm_insertionSort _ _).mem_iff] at h
  exact (List.mem_filter.mp (List.mem_filter.mp h).1).1

theorem packsValid_recentRecords (h : PacksValid packs) : PacksValid (recentRecords packs tradeDate lookbackDays) := by
  refine ⟨fun record hrecord => h.valid record (mem_recentRecords hrecord), ?_⟩
  unfold recentRecords
  rw [((List.perm_insertionSort _ _).map _).nodup_iff]
  exact h.nodup.sublist ((List.filter_sublist.trans List.filter_sublist).map _)

theorem record_eq_of_packId (h : PacksValid packs) {record other : Record} (hrecord : record ∈ packs) (hother : other ∈ packs)
    (hid : record.pack.packId = other.pack.packId) : record = other :=
  List.inj_on_of_nodup_map h.nodup hrecord hother hid

theorem stock_eq_of_code {pack : Pack} (h : pack.Valid) {stock other : Stock} (hstock : stock ∈ pack.stocks)
    (hother : other ∈ pack.stocks) (hcode : stock.code = other.code) : stock = other :=
  List.inj_on_of_nodup_map h.nodup hstock hother hcode

theorem mem_mine {records : List Record} {pack : Pack} {stock : Stock} :
    stock ∈ mine records pack ↔ stock ∈ pack.stocks ∧ owner records stock.code = some pack.packId := by
  unfold mine
  rw [List.mem_filter, decide_eq_true_eq]

end Packs

/-! ## One stock -/

section Stocks

variable {β : Type} (evidence : Evidence β) (tradeDate : Date)

/-- The settlement row of a pack's stock, if the session is settled for the pack. -/
def stockFact (record : Record) (stock : Stock) : Option Fact :=
  let sessions := sessionsBetween evidence.calendar record.pack.reviewDate tradeDate
  if (eligibleIndex sessions record.availableAt).isSome && sessions.contains tradeDate then
    some (settleStock evidence record.pack.packId stock)
  else none

/-- What a roll carries of a stock whose row holds a live plan. -/
def carriedPlan (record : Record) (next : Date) (stock : Stock) (live : Option Plan) : Option Plan :=
  let nextIndex := (sessionsBetween evidence.calendar record.pack.reviewDate tradeDate).length + 1
  match live with
  | none => none
  | some plan =>
      if stock.playbook.kind = .record ∨ plan.packId ≠ record.pack.packId then none
      else if plan.sessionDate = next ∧ plan.lifecycle.decidedOn = some tradeDate then some plan
      else if plan.sessionDate ≠ tradeDate then none
      else
        (carryStock tradeDate plan stock (stockFact evidence tradeDate record stock) nextIndex).bind
          (buildPlan evidence record.pack.packId record.pack.reviewDate next nextIndex tradeDate)

/-- What a roll plans of a stock for the next session. -/
def plannedFrom (record : Record) (stock : Stock) (live : Option Plan) : Option Plan :=
  let sessions := sessionsBetween evidence.calendar record.pack.reviewDate tradeDate
  match nextSession evidence.calendar tradeDate with
  | none => none
  | some next =>
      if openAt next ≤ record.availableAt then none
      else
        match eligibleIndex sessions record.availableAt with
        | none => buildPlan evidence record.pack.packId record.pack.reviewDate next (sessions.length + 1) tradeDate ⟨stock, none⟩
        | some _ => carriedPlan evidence tradeDate record next stock live

variable {evidence tradeDate} {rows : List WatchRow} {record : Record} {stock : Stock}

theorem settleStock_code (packId : String) (stock : Stock) : (settleStock evidence packId stock).code = stock.code := rfl

theorem find_settled {stocks : List Stock} (hnodup : (stocks.map Stock.code).Nodup) (packId : String) {stock : Stock}
    (hstock : stock ∈ stocks) :
    (stocks.map (settleStock evidence packId)).find? (fun fact => fact.code == stock.code) =
      some (settleStock evidence packId stock) := by
  induction stocks with
  | nil => exact absurd hstock List.not_mem_nil
  | cons first rest ih =>
      rw [List.map_cons, List.nodup_cons] at hnodup
      rw [List.map_cons, List.find?_cons, settleStock_code]
      rcases List.mem_cons.mp hstock with rfl | hrest
      · simp
      · have hne : first.code ≠ stock.code := fun hsame => hnodup.1 (hsame ▸ List.mem_map_of_mem hrest)
        rw [ih hnodup.2 hrest, beq_eq_false_iff_ne.mpr hne]

theorem mem_carriedCodes (hsix : stock.code.length = 6) {plan : Plan} (hlive : livePlan rows (tsCode stock.code) = some plan)
    (hpack : plan.packId = record.pack.packId) (hdate : plan.sessionDate = tradeDate) :
    stock.code ∈ carriedCodes tradeDate rows record.pack.packId := by
  unfold livePlan at hlive
  obtain ⟨row, hrow, hplan⟩ := Option.bind_eq_some_iff.mp hlive
  obtain ⟨hmem, hsymbol⟩ := Keyed.mem_of_find hrow
  refine List.mem_map.mpr ⟨row, List.mem_filter.mpr ⟨hmem, ?_⟩, ?_⟩
  · simp [hplan, hpack, hdate]
  · rw [hsymbol, take_tsCode hsix]

theorem find_facts (hvalid : record.pack.Valid) (hstock : stock ∈ record.pack.stocks) {plan : Plan}
    (hlive : livePlan rows (tsCode stock.code) = some plan) (hpack : plan.packId = record.pack.packId)
    (hdate : plan.sessionDate = tradeDate) :
    (((recordSettlement evidence tradeDate rows record).map PackSettlement.stocks).getD []).find?
      (fun fact => fact.code == stock.code) = stockFact evidence tradeDate record stock := by
  have hcarried := mem_carriedCodes (hvalid.sixDigits stock hstock) hlive hpack hdate
  unfold recordSettlement stockFact
  dsimp only
  split
  next firstIndex hfirst =>
    split
    next hsession =>
      rw [hfirst, hsession, Option.isSome_some, Bool.and_self, if_pos rfl]
      refine find_settled (hvalid.nodup.sublist (List.filter_sublist.map _)) record.pack.packId ?_
      refine List.mem_filter.mpr ⟨hstock, ?_⟩
      rw [List.contains_iff_mem.mpr hcarried, Bool.or_true]
    next hsession =>
      rw [Bool.not_eq_true] at hsession
      rw [hsession, Bool.and_false]
      rfl
  next hfirst =>
    rw [hfirst]
    rfl

/-! ## All stocks -/

/-- The plan that one step of the loop leads to. -/
def stepPlan (build : CarryStock → Option Plan) : StockStep → Option Plan
  | .nothing => none
  | .reapply plan => some plan
  | .decided _ carry => carry.bind build

theorem stepPlan_stockStep (hvalid : record.pack.Valid) (hstock : stock ∈ record.pack.stocks) (next : Date) :
    let nextIndex := (sessionsBetween evidence.calendar record.pack.reviewDate tradeDate).length + 1
    stepPlan (buildPlan evidence record.pack.packId record.pack.reviewDate next nextIndex tradeDate)
      (stockStep tradeDate rows record.pack.packId
        (((recordSettlement evidence tradeDate rows record).map PackSettlement.stocks).getD []) next nextIndex stock) =
      carriedPlan evidence tradeDate record next stock (livePlan rows (tsCode stock.code)) := by
  intro nextIndex
  unfold stockStep carriedPlan
  by_cases hkind : stock.playbook.kind = .record
  · rw [if_pos hkind]
    split
    next => rfl
    next => rw [if_pos (Or.inl hkind)]; rfl
  · rw [if_neg hkind]
    rcases hlive : livePlan rows (tsCode stock.code) with _ | plan
    · rfl
    · dsimp only
      by_cases hpack : plan.packId = record.pack.packId
      · have hours : ¬ plan.packId ≠ record.pack.packId := fun hne => hne hpack
        have hwatched : ¬ (stock.playbook.kind = .record ∨ plan.packId ≠ record.pack.packId) := fun h => h.elim hkind hours
        rw [if_neg hours, if_neg hwatched]
        by_cases hagain : plan.sessionDate = next ∧ plan.lifecycle.decidedOn = some tradeDate
        · rw [if_pos hagain, if_pos hagain]
          rfl
        · rw [if_neg hagain, if_neg hagain]
          by_cases hdate : plan.sessionDate = tradeDate
          · have hlast : ¬ plan.sessionDate ≠ tradeDate := fun hne => hne hdate
            rw [if_neg hlast, if_neg hlast, find_facts hvalid hstock hlive hpack hdate]
            rfl
          · rw [if_pos hdate, if_pos hdate]
            rfl
      · rw [if_pos hpack, if_pos (Or.inr hpack)]
        rfl

theorem carryStock_code {plan : Plan} {fact : Option Fact} {nextIndex : ℕ} {item : CarryStock}
    (h : carryStock tradeDate plan stock fact nextIndex = some item) : item.stock.code = stock.code := by
  unfold carryStock at h
  dsimp only at h
  split at h
  next => exact absurd h (by simp)
  next =>
    obtain ⟨bar, -, rfl⟩ := Option.map_eq_some_iff.mp h
    rfl
  next => rw [← Option.some.inj h]

/-- The symbol and the plan of what is admitted. -/
def SessionPlan.entry (plan : SessionPlan) : Symbol × Plan := (plan.symbol, plan.plan)

theorem entries_sortPlans (plans : List SessionPlan) : ((sortPlans plans).map SessionPlan.entry).Perm (plans.map SessionPlan.entry) :=
  (List.perm_insertionSort _ plans).map _

theorem filterMap_zipIdx {α γ : Type} (f : α → Option γ) (entries : List α) (start : ℕ) :
    (entries.zipIdx start).filterMap (fun entry => f entry.1) = entries.filterMap f := by
  induction entries generalizing start with
  | nil => rfl
  | cons first rest ih =>
      rw [List.zipIdx_cons, List.filterMap_cons, List.filterMap_cons, ih]

theorem entries_buildSessionPlans (packId : String) (reviewDate session : Date) (sessionIndex : ℕ) (previousSession : Date)
    (items : List CarryStock) :
    ((buildSessionPlans evidence packId reviewDate session sessionIndex previousSession items).map SessionPlan.entry).Perm
      (items.filterMap (fun item => (buildPlan evidence packId reviewDate session sessionIndex previousSession item).map
        (fun plan => (tsCode item.stock.code, plan)))) := by
  unfold buildSessionPlans
  refine (entries_sortPlans _).trans (List.Perm.of_eq ?_)
  rw [List.map_filterMap, ← filterMap_zipIdx _ items 0]
  refine List.filterMap_congr (fun entry _ => ?_)
  rw [Option.map_map]
  rfl

theorem filterMap_append_perm {α γ : Type} (f g : α → Option γ) (entries : List α)
    (h : ∀ entry ∈ entries, f entry = none ∨ g entry = none) :
    (entries.filterMap f ++ entries.filterMap g).Perm (entries.filterMap (fun entry => (f entry).or (g entry))) := by
  induction entries with
  | nil => exact List.Perm.refl []
  | cons first rest ih =>
      have hrest := ih (fun entry hentry => h entry (List.mem_cons_of_mem first hentry))
      rcases h first List.mem_cons_self with hnone | hnone
      · rcases hg : g first with _ | value
        · simpa [List.filterMap_cons, hnone, hg] using hrest
        · simpa [List.filterMap_cons, hnone, hg] using List.perm_middle.trans (hrest.cons value)
      · rcases hf : f first with _ | value
        · simpa [List.filterMap_cons, hnone, hf] using hrest
        · simpa [List.filterMap_cons, hnone, hf] using hrest.cons value

theorem stockStep_code {packId : String} {facts : List Fact} {next : Date} {nextIndex : ℕ} {decision : LifecycleEntry}
    {item : CarryStock} (h : stockStep tradeDate rows packId facts next nextIndex stock = .decided decision (some item)) :
    item.stock.code = stock.code := by
  unfold stockStep at h
  split at h
  next => exact absurd h (by simp)
  next =>
    split at h
    next => exact absurd h (by simp)
    next plan _ =>
      split at h
      next => exact absurd h (by simp)
      next =>
        split at h
        next => exact absurd h (by simp)
        next =>
          split at h
          next => exact absurd h (by simp)
          next => exact carryStock_code (StockStep.decided.inj h).2

variable (evidence tradeDate rows) in
/-- The entry that a stock adds to the roll's plans. -/
def plannedEntry (record : Record) (stock : Stock) : Option (Symbol × Plan) :=
  (plannedFrom evidence tradeDate record stock (livePlan rows (tsCode stock.code))).map (fun plan => (tsCode stock.code, plan))

theorem entries_rollRecord (hvalid : record.pack.Valid) (records : List Record) :
    ((rollRecord evidence tradeDate rows records record).plans.map SessionPlan.entry).Perm
      ((mine records record.pack).filterMap (plannedEntry evidence tradeDate rows record)) := by
  have hempty : ∀ hnone : (∀ stock : Stock, plannedEntry evidence tradeDate rows record stock = none),
      (mine records record.pack).filterMap (plannedEntry evidence tradeDate rows record) = [] :=
    fun hnone => List.filterMap_eq_nil_iff.mpr (fun stock _ => hnone stock)
  unfold rollRecord
  rcases hnext : nextSession evidence.calendar tradeDate with _ | next
  · rw [hempty (fun stock => by unfold plannedEntry plannedFrom; rw [hnext]; rfl)]
    exact List.Perm.refl []
  · dsimp only
    by_cases hlate : openAt next ≤ record.availableAt
    · rw [if_pos hlate, hempty (fun stock => by unfold plannedEntry plannedFrom; rw [hnext]; dsimp only; rw [if_pos hlate]; rfl)]
      exact List.Perm.refl []
    · rw [if_neg hlate]
      rcases hfirst : eligibleIndex (sessionsBetween evidence.calendar record.pack.reviewDate tradeDate) record.availableAt
        with _ | firstIndex
      · refine (entries_buildSessionPlans _ _ _ _ _ _).trans (List.Perm.of_eq ?_)
        rw [List.filterMap_map]
        refine List.filterMap_congr (fun stock _ => ?_)
        unfold plannedEntry plannedFrom
        rw [hnext]
        dsimp only
        rw [if_neg hlate, hfirst]
        rfl
      · dsimp only
        rw [List.map_append, List.map_filterMap, List.filterMap_map]
        refine ((List.Perm.append_left _ (entries_buildSessionPlans _ _ _ _ _ _))).trans ?_
        rw [List.filterMap_filterMap, List.filterMap_map]
        refine (filterMap_append_perm _ _ _ (fun stock _ => ?_)).trans (List.Perm.of_eq (List.filterMap_congr (fun stock hstock => ?_)))
        · rw [Function.comp_apply, Function.comp_apply]
          split
          next hstep => exact Or.inr (by rw [hstep]; rfl)
          next => exact Or.inl rfl
        · have hmine := (mem_mine.mp hstock).1
          have hplanned : plannedEntry evidence tradeDate rows record stock =
              (carriedPlan evidence tradeDate record next stock (livePlan rows (tsCode stock.code))).map
                (fun plan => (tsCode stock.code, plan)) := by
            unfold plannedEntry plannedFrom
            rw [hnext]
            dsimp only
            rw [if_neg hlate, hfirst]
          rw [hplanned, ← stepPlan_stockStep hvalid hmine next, Function.comp_apply, Function.comp_apply]
          dsimp only
          rcases hstep : stockStep tradeDate rows record.pack.packId
            (((recordSettlement evidence tradeDate rows record).map PackSettlement.stocks).getD []) next
            ((sessionsBetween evidence.calendar record.pack.reviewDate tradeDate).length + 1) stock with _ | plan | ⟨decision, _ | item⟩
          · rfl
          · rfl
          · rfl
          · have hcode := stockStep_code hstep
            simp only [Option.map_none, Option.none_or, Option.bind_some, stepPlan, hcode]

/-! ## All packs -/

variable {records : List Record}

section

variable (hvalid : ∀ record ∈ records, record.pack.Valid)

include hvalid

/-- **The plans of a roll, pack by pack and stock by stock.** -/
theorem entries_rollPlans :
    ((rollPlans evidence tradeDate rows records).map SessionPlan.entry).Perm
      (records.flatMap (fun record => (mine records record.pack).filterMap (plannedEntry evidence tradeDate rows record))) := by
  unfold rollPlans
  refine (entries_sortPlans _).trans ?_
  rw [List.map_flatMap]
  exact List.Perm.flatMap_left _ (fun record hrecord => entries_rollRecord (hvalid record hrecord) records)

theorem mem_rollPlans {symbol : Symbol} {plan : Plan} :
    (symbol, plan) ∈ (rollPlans evidence tradeDate rows records).map SessionPlan.entry ↔
      ∃ record ∈ records, ∃ stock ∈ mine records record.pack,
        plannedFrom evidence tradeDate record stock (livePlan rows (tsCode stock.code)) = some plan ∧ tsCode stock.code = symbol := by
  rw [(entries_rollPlans hvalid).mem_iff, List.mem_flatMap]
  constructor
  · rintro ⟨record, hrecord, hentry⟩
    obtain ⟨stock, hstock, hentry⟩ := List.mem_filterMap.mp hentry
    obtain ⟨planned, hplanned, hsame⟩ := Option.map_eq_some_iff.mp hentry
    obtain ⟨rfl, rfl⟩ := Prod.mk.inj hsame
    exact ⟨record, hrecord, stock, hstock, hplanned, rfl⟩
  · rintro ⟨record, hrecord, stock, hstock, hplanned, rfl⟩
    refine ⟨record, hrecord, List.mem_filterMap.mpr ⟨stock, hstock, ?_⟩⟩
    unfold plannedEntry
    rw [hplanned, Option.map_some]

end

theorem symbols_planned (stocks : List Stock) :
    ((stocks.filterMap (plannedEntry evidence tradeDate rows record)).map Prod.fst).Sublist (stocks.map (fun stock => tsCode stock.code)) := by
  induction stocks with
  | nil => exact List.Sublist.refl []
  | cons first rest ih =>
      rw [List.map_cons, List.filterMap_cons]
      unfold plannedEntry at ih ⊢
      rcases plannedFrom evidence tradeDate record first (livePlan rows (tsCode first.code)) with _ | plan
      · exact ih.cons _
      · exact ih.cons_cons _

theorem owner_of_symbol {symbol : Symbol}
    (h : symbol ∈ ((mine records record.pack).filterMap (plannedEntry evidence tradeDate rows record)).map Prod.fst) :
    ∃ stock ∈ mine records record.pack, tsCode stock.code = symbol :=
  List.mem_map.mp ((symbols_planned _).subset h)

/-- **No symbol has two plans.** -/
theorem nodup_rollPlans (hvalid : PacksValid records) :
    ((rollPlans evidence tradeDate rows records).map SessionPlan.symbol).Nodup := by
  have hsymbols : (rollPlans evidence tradeDate rows records).map SessionPlan.symbol =
      ((rollPlans evidence tradeDate rows records).map SessionPlan.entry).map Prod.fst := by
    rw [List.map_map]
    rfl
  rw [hsymbols, ((entries_rollPlans hvalid.valid).map Prod.fst).nodup_iff, List.map_flatMap, List.nodup_flatMap]
  refine ⟨fun record hrecord => ?_, ?_⟩
  · refine List.Nodup.sublist (symbols_planned _) ?_
    have hcodes : ((mine records record.pack).map Stock.code).Nodup :=
      (hvalid.valid record hrecord).nodup.sublist (List.filter_sublist.map _)
    have hmap : (mine records record.pack).map (fun stock => tsCode stock.code) =
        ((mine records record.pack).map Stock.code).map tsCode := by
      rw [List.map_map]
      rfl
    rw [hmap]
    exact hcodes.map (fun _ _ => tsCode_injective)
  · refine (List.pairwise_map.mp hvalid.nodup).imp_of_mem (fun {record other} hrecord hother hne => ?_)
    intro symbol hsymbol hsymbol'
    obtain ⟨stock, hstock, hcode⟩ := owner_of_symbol hsymbol
    obtain ⟨stock', hstock', hcode'⟩ := owner_of_symbol hsymbol'
    have hsame : stock.code = stock'.code := tsCode_injective (hcode.trans hcode'.symm)
    have hown := (mem_mine.mp hstock).2
    have hown' := (mem_mine.mp hstock').2
    rw [← hsame, hown] at hown'
    exact hne (Option.some.inj hown')

end Stocks

end TradingHarness.Teacher
