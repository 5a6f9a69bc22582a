import TradingHarness.Teacher.Planning

set_option autoImplicit false

/-! # Rolling a session again

What a second roll of a session makes of the rows that the first one left. It decides every stock as before; it
may find places that the first roll's retirements freed, and it settles fewer stocks, since the plans that moved
on are no longer live on the session. -/

namespace TradingHarness.Teacher

variable {symbol : Symbol}

section Rows

variable {β : Type} (evidence : Evidence β) (tradeDate : Date) (now : Timestamp) (world : World)

/-- The packs a roll reads. -/
def rolledRecords : List Record := recentRecords world.packs tradeDate evidence.lookbackDays

/-- The plans a roll carries. -/
def rolledPlans : List SessionPlan := rollPlans evidence tradeDate world.rows (rolledRecords evidence tradeDate world)

/-- The free places a roll finds. -/
def rolledRoom : ℕ := headroom evidence.maxSymbols evidence.reserve world.rows

variable {evidence tradeDate now world}

theorem roll_packs : (roll evidence tradeDate now world).packs = world.packs := by
  unfold roll
  dsimp only
  split <;> rfl

theorem rolledPlans_of_empty (hempty : rolledRecords evidence tradeDate world = []) : rolledPlans evidence tradeDate world = [] := by
  unfold rolledPlans
  rw [hempty]
  rfl

theorem roll_rows (now : Timestamp) (hsome : rolledRecords evidence tradeDate world ≠ []) : (roll evidence tradeDate now world).rows =
    retirePlans ((rolledPlans evidence tradeDate world).map SessionPlan.symbol) now
      (applySessionPlans evidence.maxSymbols evidence.reserve (rolledPlans evidence tradeDate world) world.rows).rows := by
  have hrecords : (recentRecords world.packs tradeDate evidence.lookbackDays).isEmpty = false := by
    rw [Bool.eq_false_iff, ne_eq, List.isEmpty_iff]
    exact hsome
  unfold roll
  dsimp only
  rw [hrecords]
  rfl

/-- Whether the plan gets into its row. -/
def isWritten (hasRoom : Bool) : Option WatchRow → Bool
  | none => hasRoom
  | some row => row.enabled || (row.ours && hasRoom)

variable (evidence tradeDate world) in
/-- Whether a free place is left when a plan's turn comes. -/
def hasRoom (symbol : Symbol) : Bool :=
  decide (takenBefore world.rows symbol (rolledPlans evidence tradeDate world) < rolledRoom evidence world)

theorem placed_of_written (plan : SessionPlan) {free : Bool} {row : Option WatchRow} (h : isWritten free row = true) :
    ∃ after, placed free plan row = some after ∧ after.enabled = true ∧ after.plan = some plan.plan := by
  cases row with
  | none =>
      have hfree : free = true := h
      subst hfree
      exact ⟨_, rfl, rfl, rfl⟩
  | some row =>
      have hrow : (row.enabled || (row.ours && free)) = true := h
      refine ⟨mergePlan plan.plan row, if_pos hrow, ?_, rfl⟩
      unfold mergePlan
      rcases henabled : row.enabled
      · rw [henabled, Bool.false_or, Bool.and_eq_true] at hrow
        rw [hrow.1]
        rfl
      · rfl

theorem placed_of_not_written {free : Bool} {plan : SessionPlan} {row : Option WatchRow} (h : isWritten free row = false) :
    placed free plan row = row := by
  cases row with
  | none =>
      have hfree : free = false := h
      subst hfree
      rfl
  | some row =>
      have hrow : (row.enabled || (row.ours && free)) = false := h
      exact if_neg (by rw [hrow]; exact Bool.false_ne_true)

variable (now) (hpacks : PacksValid world.packs)

include hpacks in
theorem nodup_rolledPlans : ((rolledPlans evidence tradeDate world).map SessionPlan.symbol).Nodup :=
  nodup_rollPlans (packsValid_recentRecords hpacks)

include hpacks in
theorem find_roll_of_planned {plan : SessionPlan} (hplan : plan ∈ rolledPlans evidence tradeDate world) :
    Keyed.find WatchRow.symbol plan.symbol (roll evidence tradeDate now world).rows =
      placed (hasRoom evidence tradeDate world plan.symbol) plan (Keyed.find WatchRow.symbol plan.symbol world.rows) := by
  have hsome : rolledRecords evidence tradeDate world ≠ [] := by
    intro hempty
    rw [rolledPlans_of_empty hempty] at hplan
    exact List.not_mem_nil hplan
  have hkeep : ∀ row : WatchRow, row.symbol = plan.symbol →
      (if ((rolledPlans evidence tradeDate world).map SessionPlan.symbol).contains row.symbol then row else retireRow now row) = row := by
    intro row hrow
    rw [hrow, List.contains_iff_mem.mpr (List.mem_map_of_mem hplan)]
    rfl
  rw [roll_rows now hsome, find_retirePlans]
  have hfind := @find_applied ⟨world.rows, rolledRoom evidence world, ⟨[], [], [], []⟩⟩ plan _ (nodup_rolledPlans hpacks) hplan
  unfold applySessionPlans
  rcases happlied : Keyed.find WatchRow.symbol plan.symbol ((rolledPlans evidence tradeDate world).foldl applyPlan
    ⟨world.rows, headroom evidence.maxSymbols evidence.reserve world.rows, ⟨[], [], [], []⟩⟩).rows with _ | row
  · exact happlied.symm.trans hfind
  · rw [Option.map_some, hkeep row (Keyed.mem_of_find happlied).2]
    exact happlied.symm.trans hfind

theorem find_roll_of_not_planned (hsome : rolledRecords evidence tradeDate world ≠ [])
    (hout : symbol ∉ (rolledPlans evidence tradeDate world).map SessionPlan.symbol) :
    Keyed.find WatchRow.symbol symbol (roll evidence tradeDate now world).rows =
      (Keyed.find WatchRow.symbol symbol world.rows).map (retireRow now) := by
  rw [roll_rows now hsome, find_retirePlans]
  unfold applySessionPlans
  rw [find_applied_of_not_mem hout]
  rcases hfind : Keyed.find WatchRow.symbol symbol world.rows with _ | row
  · rfl
  · have hrow := (Keyed.mem_of_find hfind).2
    rw [Option.map_some, Option.map_some, hrow, if_neg (by simpa using hout)]

end Rows

/-! ## Deciding again -/

variable {plan : Plan} {stock : Stock} {record : Record}

section Decisions

variable {β : Type} {evidence : Evidence β} {tradeDate : Date}

/-- The plan of a row of ours once it is retired. -/
def Plan.expire (now : Timestamp) (plan : Plan) : Plan := { plan with status := .expired, expiredAt := some now }

theorem lt_of_nextSession {calendar : List Date} {day next : Date} (h : nextSession calendar day = some next) : day < next := by
  have hmem : next ∈ calendar.filter (fun later => decide (day < later)) := List.mem_of_mem_head? h
  exact of_decide_eq_true (List.mem_filter.mp hmem).2

theorem buildPlan_fields {packId : String} {reviewDate session previous : Date} {index : ℕ} {item : CarryStock}
    (h : buildPlan evidence packId reviewDate session index previous item = some plan) :
    plan.packId = packId ∧ plan.sessionDate = session ∧ plan.lifecycle = lifecycleOf item session := by
  unfold buildPlan at h
  split at h
  next => exact absurd h (by simp)
  next =>
    split at h
    next =>
      rw [← Option.some.inj h]
      exact ⟨rfl, rfl, rfl⟩
    next => exact absurd h (by simp)

theorem carryStock_decidedOn {fact : Option Fact} {nextIndex : ℕ} {item : CarryStock}
    (h : carryStock tradeDate plan stock fact nextIndex = some item) (session : Date) :
    (lifecycleOf item session).decidedOn = some tradeDate := by
  unfold carryStock at h
  dsimp only at h
  split at h
  next => exact absurd h (by simp)
  next =>
    obtain ⟨bar, -, rfl⟩ := Option.map_eq_some_iff.mp h
    rfl
  next =>
    rw [← Option.some.inj h]
    rfl

theorem carriedPlan_fields {next : Date} {live : Option Plan}
    (h : carriedPlan evidence tradeDate record next stock live = some plan) :
    stock.playbook.kind ≠ .record ∧ plan.packId = record.pack.packId ∧ plan.sessionDate = next ∧
      plan.lifecycle.decidedOn = some tradeDate := by
  unfold carriedPlan at h
  dsimp only at h
  split at h
  next => exact absurd h (by simp)
  next old =>
    split at h
    next => exact absurd h (by simp)
    next hours =>
      rw [not_or, not_ne_iff] at hours
      split at h
      next hagain =>
        rw [← Option.some.inj h]
        exact ⟨hours.1, hours.2, hagain.1, hagain.2⟩
      next =>
        split at h
        next => exact absurd h (by simp)
        next =>
          obtain ⟨item, hitem, hbuild⟩ := Option.bind_eq_some_iff.mp h
          obtain ⟨hpack, hsession, hlifecycle⟩ := buildPlan_fields hbuild
          refine ⟨hours.1, hpack, hsession, ?_⟩
          rw [hlifecycle]
          exact carryStock_decidedOn hitem next

/-- **A carried plan is carried again as it is.** -/
theorem carriedPlan_again {next : Date} {live : Option Plan}
    (h : carriedPlan evidence tradeDate record next stock live = some plan) :
    carriedPlan evidence tradeDate record next stock (some plan) = some plan := by
  obtain ⟨hkind, hpack, hsession, hdecided⟩ := carriedPlan_fields h
  unfold carriedPlan
  dsimp only
  rw [if_neg (by rw [not_or, not_ne_iff]; exact ⟨hkind, hpack⟩), if_pos ⟨hsession, hdecided⟩]

/-- **A plan that is not carried is not carried either once it is retired.** -/
theorem carriedPlan_expire {next : Date} (now : Timestamp)
    (h : carriedPlan evidence tradeDate record next stock (some plan) = none) :
    carriedPlan evidence tradeDate record next stock (some (plan.expire now)) = none := by
  unfold carriedPlan at h ⊢
  dsimp only at h ⊢
  by_cases hagain : plan.sessionDate = next ∧ plan.lifecycle.decidedOn = some tradeDate
  · rw [if_pos hagain] at h
    have hother : stock.playbook.kind = .record ∨ plan.packId ≠ record.pack.packId := by
      by_contra hours
      rw [if_neg hours] at h
      exact absurd h (by simp)
    exact if_pos hother
  · rw [if_neg hagain] at h
    have hagain' : ¬ ((plan.expire now).sessionDate = next ∧ (plan.expire now).lifecycle.decidedOn = some tradeDate) := hagain
    rw [if_neg hagain']
    exact h

theorem plannedFrom_eq (evidence : Evidence β) (tradeDate : Date) (record : Record) (stock : Stock) :
    (∃ planned, ∀ live, plannedFrom evidence tradeDate record stock live = planned) ∨
      ∃ next, nextSession evidence.calendar tradeDate = some next ∧
        ∀ live, plannedFrom evidence tradeDate record stock live = carriedPlan evidence tradeDate record next stock live := by
  unfold plannedFrom
  dsimp only
  rcases nextSession evidence.calendar tradeDate with _ | next
  · exact Or.inl ⟨none, fun _ => rfl⟩
  · dsimp only
    by_cases hlate : openAt next ≤ record.availableAt
    · exact Or.inl ⟨none, fun _ => if_pos hlate⟩
    · rcases eligibleIndex (sessionsBetween evidence.calendar record.pack.reviewDate tradeDate) record.availableAt with _ | firstIndex
      · exact Or.inl ⟨_, fun _ => if_neg hlate⟩
      · exact Or.inr ⟨next, rfl, fun _ => if_neg hlate⟩

theorem plannedFrom_session {live : Option Plan}
    (h : plannedFrom evidence tradeDate record stock live = some plan) :
    nextSession evidence.calendar tradeDate = some plan.sessionDate := by
  unfold plannedFrom at h
  dsimp only at h
  rcases hnext : nextSession evidence.calendar tradeDate with _ | next
  · rw [hnext] at h
    exact absurd h (by simp)
  · rw [hnext] at h
    dsimp only at h
    split at h
    next => exact absurd h (by simp)
    next =>
      split at h
      next => rw [(buildPlan_fields h).2.1]
      next => rw [(carriedPlan_fields h).2.2.1]

end Decisions

/-! ## The second roll -/

section Again

variable {β : Type} {evidence : Evidence β} {tradeDate : Date} {now : Timestamp} {world : World}
  (hpacks : PacksValid world.packs)

include hpacks in
theorem exists_rolledPlan (hrecord : record ∈ rolledRecords evidence tradeDate world)
    (hstock : stock ∈ mine (rolledRecords evidence tradeDate world) record.pack)
    (hplanned : plannedFrom evidence tradeDate record stock (livePlan world.rows (tsCode stock.code)) = some plan) :
    ∃ offered ∈ rolledPlans evidence tradeDate world, offered.symbol = tsCode stock.code ∧ offered.plan = plan := by
  have hmem := (mem_rollPlans (packsValid_recentRecords hpacks).valid).mpr ⟨record, hrecord, stock, hstock, hplanned, rfl⟩
  obtain ⟨offered, hoffered, hentry⟩ := List.mem_map.mp hmem
  obtain ⟨hsymbol, hplan⟩ := Prod.mk.inj hentry
  exact ⟨offered, hoffered, hsymbol, hplan⟩

include hpacks in
theorem not_mem_of_not_planned (hrecord : record ∈ rolledRecords evidence tradeDate world)
    (hstock : stock ∈ mine (rolledRecords evidence tradeDate world) record.pack)
    (hplanned : plannedFrom evidence tradeDate record stock (livePlan world.rows (tsCode stock.code)) = none) :
    tsCode stock.code ∉ (rolledPlans evidence tradeDate world).map SessionPlan.symbol := by
  intro hmem
  obtain ⟨offered, hoffered, hsymbol⟩ := List.mem_map.mp hmem
  have hvalid : PacksValid (rolledRecords evidence tradeDate world) := packsValid_recentRecords hpacks
  obtain ⟨record', hrecord', stock', hstock', hplanned', hcode⟩ :=
    (mem_rollPlans hvalid.valid).mp (List.mem_map_of_mem hoffered)
  have hsame : stock'.code = stock.code := tsCode_injective (hcode.trans hsymbol)
  have hown := (mem_mine.mp hstock).2
  have hown' := (mem_mine.mp hstock').2
  rw [hsame] at hown'
  have hrecords : record' = record := record_eq_of_packId hvalid hrecord' hrecord (Option.some.inj (hown'.symm.trans hown))
  subst hrecords
  have hstocks : stock' = stock :=
    stock_eq_of_code (hvalid.valid record' hrecord) (mem_mine.mp hstock').1 (mem_mine.mp hstock).1 hsame
  subst hstocks
  rw [hplanned] at hplanned'
  exact absurd hplanned' (by simp)

include hpacks in
/-- **The second roll plans each stock as the first did.** -/
theorem plannedFrom_again (hrecord : record ∈ rolledRecords evidence tradeDate world)
    (hstock : stock ∈ mine (rolledRecords evidence tradeDate world) record.pack) :
    plannedFrom evidence tradeDate record stock (livePlan (roll evidence tradeDate now world).rows (tsCode stock.code)) =
      plannedFrom evidence tradeDate record stock (livePlan world.rows (tsCode stock.code)) := by
  rcases plannedFrom_eq evidence tradeDate record stock with ⟨planned, hplanned⟩ | ⟨next, hnext, hcarried⟩
  · rw [hplanned, hplanned]
  · rcases hplan : plannedFrom evidence tradeDate record stock (livePlan world.rows (tsCode stock.code)) with _ | plan
    · have hsome : rolledRecords evidence tradeDate world ≠ [] := List.ne_nil_of_mem hrecord
      have hfind := find_roll_of_not_planned now hsome (not_mem_of_not_planned hpacks hrecord hstock hplan)
      rw [hcarried] at hplan ⊢
      unfold livePlan at hplan ⊢
      rw [hfind]
      rcases hrow : Keyed.find WatchRow.symbol (tsCode stock.code) world.rows with _ | row
      · rw [hrow] at hplan
        exact hplan
      · rw [hrow, Option.bind_some] at hplan
        rw [Option.map_some, Option.bind_some]
        unfold retireRow
        rcases hlive : row.plan with _ | live
        · dsimp only
          rw [hlive]
          rfl
        · rw [hlive] at hplan
          dsimp only
          split
          next => exact carriedPlan_expire now hplan
          next => rfl
    · obtain ⟨offered, hoffered, hsymbol, rfl⟩ := exists_rolledPlan hpacks hrecord hstock hplan
      have hfind := find_roll_of_planned now hpacks hoffered
      rw [hsymbol] at hfind
      unfold livePlan
      rw [hfind]
      rcases hwritten : isWritten (hasRoom evidence tradeDate world (tsCode stock.code))
        (Keyed.find WatchRow.symbol (tsCode stock.code) world.rows)
      · rw [placed_of_not_written hwritten]
        exact hplan
      · obtain ⟨after, hafter, -, hlive⟩ := placed_of_written offered hwritten
        rw [hafter, Option.bind_some, hlive, hcarried]
        rw [hcarried] at hplan
        exact carriedPlan_again hplan

theorem rolledRecords_again : rolledRecords evidence tradeDate (roll evidence tradeDate now world) = rolledRecords evidence tradeDate world := by
  unfold rolledRecords
  rw [roll_packs]

variable (now) in
include hpacks in
/-- **Both rolls carry the same plans.** -/
theorem entries_again (symbol : Symbol) (plan : Plan) :
    (symbol, plan) ∈ (rolledPlans evidence tradeDate (roll evidence tradeDate now world)).map SessionPlan.entry ↔
      (symbol, plan) ∈ (rolledPlans evidence tradeDate world).map SessionPlan.entry := by
  have hvalid : PacksValid (rolledRecords evidence tradeDate world) := packsValid_recentRecords hpacks
  unfold rolledPlans
  rw [rolledRecords_again, mem_rollPlans hvalid.valid, mem_rollPlans hvalid.valid]
  have hsame : ∀ record ∈ rolledRecords evidence tradeDate world, ∀ stock ∈ mine (rolledRecords evidence tradeDate world) record.pack,
      plannedFrom evidence tradeDate record stock (livePlan (roll evidence tradeDate now world).rows (tsCode stock.code)) =
        plannedFrom evidence tradeDate record stock (livePlan world.rows (tsCode stock.code)) :=
    fun record hrecord stock hstock => plannedFrom_again hpacks hrecord hstock
  constructor
  · rintro ⟨record, hrecord, stock, hstock, hplanned, hcode⟩
    exact ⟨record, hrecord, stock, hstock, (hsame record hrecord stock hstock) ▸ hplanned, hcode⟩
  · rintro ⟨record, hrecord, stock, hstock, hplanned, hcode⟩
    exact ⟨record, hrecord, stock, hstock, (hsame record hrecord stock hstock).symm ▸ hplanned, hcode⟩

include hpacks in
theorem symbols_again (symbol : Symbol) :
    symbol ∈ (rolledPlans evidence tradeDate (roll evidence tradeDate now world)).map SessionPlan.symbol ↔
      symbol ∈ (rolledPlans evidence tradeDate world).map SessionPlan.symbol := by
  have hsymbols : ∀ plans : List SessionPlan, symbol ∈ plans.map SessionPlan.symbol ↔
      ∃ plan, (symbol, plan) ∈ plans.map SessionPlan.entry := by
    intro plans
    constructor
    · intro hsymbol
      obtain ⟨offered, hoffered, rfl⟩ := List.mem_map.mp hsymbol
      exact ⟨offered.plan, List.mem_map_of_mem hoffered⟩
    · rintro ⟨plan, hentry⟩
      obtain ⟨offered, hoffered, hsame⟩ := List.mem_map.mp hentry
      exact (Prod.mk.inj hsame).1 ▸ List.mem_map_of_mem hoffered
  rw [hsymbols, hsymbols]
  exact exists_congr (fun plan => entries_again now hpacks symbol plan)

/-- The plan in effect for a session: that of an enabled row. -/
def planFor (rows : List WatchRow) (session : Date) (symbol : Symbol) : Option Plan :=
  (Keyed.find WatchRow.symbol symbol rows).bind (fun row =>
    if row.enabled then row.plan.filter (fun plan => decide (plan.sessionDate = session)) else none)

theorem planFor_of_disabled {rows : List WatchRow} (session : Date)
    (h : ∀ row, Keyed.find WatchRow.symbol symbol rows = some row → row.enabled = false ∨ row.plan = none) :
    planFor rows session symbol = none := by
  unfold planFor
  rcases hfind : Keyed.find WatchRow.symbol symbol rows with _ | row
  · rfl
  · rw [Option.bind_some]
    rcases h row hfind with hdisabled | hplan
    · rw [hdisabled]
      rfl
    · rw [hplan]
      split <;> rfl

theorem planFor_of_not_planned (hsome : rolledRecords evidence tradeDate world ≠ [])
    (hout : symbol ∉ (rolledPlans evidence tradeDate world).map SessionPlan.symbol) (session : Date) :
    planFor (roll evidence tradeDate now world).rows session symbol = none := by
  refine planFor_of_disabled session (fun row hrow => ?_)
  rw [find_roll_of_not_planned now hsome hout] at hrow
  obtain ⟨old, -, rfl⟩ := Option.map_eq_some_iff.mp hrow
  unfold retireRow
  split
  next hplan => exact Or.inr hplan
  next =>
    split
    next => exact Or.inl rfl
    next => exact Or.inr rfl

variable (now) in
include hpacks in
theorem planFor_of_written {offered : SessionPlan} (hoffered : offered ∈ rolledPlans evidence tradeDate world)
    (hwritten : isWritten (hasRoom evidence tradeDate world offered.symbol) (Keyed.find WatchRow.symbol offered.symbol world.rows) = true)
    {session : Date} (hsession : offered.plan.sessionDate = session) :
    planFor (roll evidence tradeDate now world).rows session offered.symbol = some offered.plan := by
  obtain ⟨after, hafter, henabled, hplan⟩ := placed_of_written offered hwritten
  unfold planFor
  rw [find_roll_of_planned now hpacks hoffered, hafter, Option.bind_some, if_pos henabled, hplan]
  exact Option.filter_some_pos (decide_eq_true hsession)

/-! ## The same plans -/

variable (evidence tradeDate now world) in
/-- No plan finds a place in the second roll that it did not find in the first. -/
def Quiet : Prop :=
  ∀ symbol ∈ (rolledPlans evidence tradeDate world).map SessionPlan.symbol,
    needsRoom (roll evidence tradeDate now world).rows symbol = true →
      rolledRoom evidence (roll evidence tradeDate now world) = 0

variable (evidence tradeDate now world) in
/-- The second roll leaves the plans of the first for the next session. -/
def SamePlans (again : Timestamp) : Prop :=
  ∀ next, nextSession evidence.calendar tradeDate = some next → ∀ symbol,
    planFor (roll evidence tradeDate again (roll evidence tradeDate now world)).rows next symbol =
      planFor (roll evidence tradeDate now world).rows next symbol

theorem needsRoom_of_written {rows : List WatchRow} {free free' : Bool}
    (hwritten : isWritten free (Keyed.find WatchRow.symbol symbol rows) = true)
    (hnot : isWritten free' (Keyed.find WatchRow.symbol symbol rows) = false) : needsRoom rows symbol = true ∧ free = true := by
  unfold needsRoom
  generalize Keyed.find WatchRow.symbol symbol rows = stored at hwritten hnot ⊢
  rcases stored with _ | row
  · exact ⟨rfl, hwritten⟩
  · have hrow : (row.enabled || (row.ours && free)) = true := hwritten
    have hrow' : (row.enabled || (row.ours && free')) = false := hnot
    rcases henabled : row.enabled <;> rcases hours : row.ours <;> simp [henabled, hours] at hrow hrow' ⊢
    exact hrow

theorem isWritten_of_needsRoom {rows : List WatchRow} (h : needsRoom rows symbol = true) (free : Bool) :
    isWritten free (Keyed.find WatchRow.symbol symbol rows) = free := by
  unfold needsRoom at h
  generalize Keyed.find WatchRow.symbol symbol rows = stored at h ⊢
  rcases stored with _ | row
  · rfl
  · have hrow : (!row.enabled && row.ours) = true := h
    rw [Bool.and_eq_true, Bool.not_eq_true'] at hrow
    simp [isWritten, hrow.1, hrow.2]

theorem hasRoom_pos (h : hasRoom evidence tradeDate world symbol = true) : rolledRoom evidence world ≠ 0 := by
  have hlt := of_decide_eq_true h
  omega

variable (now) in
include hpacks in
theorem exists_offered_again (hsymbol : symbol ∈ (rolledPlans evidence tradeDate world).map SessionPlan.symbol) :
    ∃ first ∈ rolledPlans evidence tradeDate world, ∃ second ∈ rolledPlans evidence tradeDate (roll evidence tradeDate now world),
      first.symbol = symbol ∧ second.symbol = symbol ∧ second.plan = first.plan := by
  obtain ⟨first, hfirst, rfl⟩ := List.mem_map.mp hsymbol
  have hentry := (entries_again now hpacks first.symbol first.plan).mpr (List.mem_map_of_mem hfirst)
  obtain ⟨second, hsecond, hsame⟩ := List.mem_map.mp hentry
  obtain ⟨hsymbol', hplan⟩ := Prod.mk.inj hsame
  exact ⟨first, hfirst, second, hsecond, rfl, hsymbol', hplan⟩

include hpacks in
theorem session_of_rolledPlan {offered : SessionPlan} (hoffered : offered ∈ rolledPlans evidence tradeDate world) :
    nextSession evidence.calendar tradeDate = some offered.plan.sessionDate := by
  have hvalid : PacksValid (rolledRecords evidence tradeDate world) := packsValid_recentRecords hpacks
  obtain ⟨record, -, stock, -, hplanned, -⟩ := (mem_rollPlans hvalid.valid).mp (List.mem_map_of_mem hoffered)
  exact plannedFrom_session hplanned

include hpacks in
theorem samePlans_of_quiet (h : Quiet evidence tradeDate now world) (again : Timestamp) :
    SamePlans evidence tradeDate now world again := by
  intro next hnext symbol
  have hpacks' : PacksValid (roll evidence tradeDate now world).packs := by
    rw [roll_packs]
    exact hpacks
  by_cases hempty : rolledRecords evidence tradeDate world = []
  · have hroll : ∀ now, roll evidence tradeDate now world = world := by
      intro now
      unfold roll
      have hrecords : (recentRecords world.packs tradeDate evidence.lookbackDays).isEmpty = true := List.isEmpty_iff.mpr hempty
      dsimp only
      rw [if_pos hrecords]
    rw [hroll, hroll]
  · by_cases hsymbol : symbol ∈ (rolledPlans evidence tradeDate world).map SessionPlan.symbol
    · obtain ⟨first, hfirst, second, hsecond, rfl, hsame, hplan⟩ := exists_offered_again now hpacks hsymbol
      have hagain := find_roll_of_planned again hpacks' hsecond
      rw [hsame] at hagain
      rcases hwritten : isWritten (hasRoom evidence tradeDate (roll evidence tradeDate now world) first.symbol)
        (Keyed.find WatchRow.symbol first.symbol (roll evidence tradeDate now world).rows)
      · unfold planFor
        rw [hagain, placed_of_not_written hwritten]
      · have hdate : second.plan.sessionDate = next := Option.some.inj ((session_of_rolledPlan hpacks' hsecond).symm.trans hnext)
        have hlater := planFor_of_written again hpacks' hsecond (by rw [hsame]; exact hwritten) hdate
        rw [hsame] at hlater
        rw [hlater, hplan]
        -- the plan was written at once: otherwise its row would need a place, and there is none
        rcases hearlier : isWritten (hasRoom evidence tradeDate world first.symbol)
          (Keyed.find WatchRow.symbol first.symbol world.rows)
        · have hsamerow := find_roll_of_planned now hpacks hfirst
          rw [placed_of_not_written hearlier] at hsamerow
          rw [← hsamerow] at hearlier
          obtain ⟨hneeds, hfree⟩ := needsRoom_of_written hwritten hearlier
          exact absurd (h first.symbol hsymbol hneeds) (hasRoom_pos hfree)
        · exact (planFor_of_written now hpacks hfirst hearlier (hplan ▸ hdate)).symm
    · have hout : symbol ∉ (rolledPlans evidence tradeDate (roll evidence tradeDate now world)).map SessionPlan.symbol :=
        fun hmem => hsymbol ((symbols_again hpacks symbol).mp hmem)
      rw [planFor_of_not_planned hempty hsymbol, planFor_of_not_planned (by rw [rolledRecords_again]; exact hempty) hout]

include hpacks in
theorem quiet_of_samePlans {again : Timestamp} (h : SamePlans evidence tradeDate now world again) : Quiet evidence tradeDate now world := by
  intro symbol hsymbol hneeds
  by_contra hroom
  have hpacks' : PacksValid (roll evidence tradeDate now world).packs := by
    rw [roll_packs]
    exact hpacks
  obtain ⟨first, -, second, hsecond, -, hsame, -⟩ := exists_offered_again now hpacks hsymbol
  -- the first plan of the second roll that takes a place gets one
  obtain ⟨head, hhead, hlacks, hzero⟩ := exists_first (nodup_rolledPlans hpacks') hsecond (hsame ▸ hneeds)
  have hfree : hasRoom evidence tradeDate (roll evidence tradeDate now world) head.symbol = true :=
    decide_eq_true (hzero ▸ Nat.pos_of_ne_zero hroom)
  have hwritten : isWritten (hasRoom evidence tradeDate (roll evidence tradeDate now world) head.symbol)
      (Keyed.find WatchRow.symbol head.symbol (roll evidence tradeDate now world).rows) = true := by
    rw [hfree]
    exact isWritten_of_needsRoom hlacks true
  have hdate := session_of_rolledPlan hpacks' hhead
  have hlater := planFor_of_written again hpacks' hhead hwritten rfl
  have hearlier : planFor (roll evidence tradeDate now world).rows head.plan.sessionDate head.symbol = none := by
    refine planFor_of_disabled _ (fun row hrow => Or.inl ?_)
    unfold needsRoom at hlacks
    rw [hrow] at hlacks
    have hrow : (!row.enabled && row.ours) = true := hlacks
    rw [Bool.and_eq_true] at hrow
    simpa using hrow.1
  rw [h _ hdate head.symbol, hearlier] at hlater
  exact absurd hlater (by simp)

/-! ## Places -/

variable (evidence tradeDate world) in
/-- The plans that need a place are no more than the free places, or the rows of ours that the roll retires free none. -/
def PlacesSuffice : Prop :=
  let plans := rolledPlans evidence tradeDate world
  plans.countP (fun plan => needsRoom world.rows plan.symbol) ≤ rolledRoom evidence world ∨
    evidence.maxSymbols - evidence.reserve + world.rows.countP (isGivenUp (plans.map SessionPlan.symbol)) ≤
      world.rows.countP WatchRow.enabled + rolledRoom evidence world

variable (now) in
include hpacks in
/-- The free places of the second roll. -/
theorem rolledRoom_again (hsymbols : (world.rows.map WatchRow.symbol).Nodup) (hsome : rolledRecords evidence tradeDate world ≠ [])
    (hmore : rolledRoom evidence world <
      (rolledPlans evidence tradeDate world).countP (fun plan => needsRoom world.rows plan.symbol)) :
    rolledRoom evidence (roll evidence tradeDate now world) =
      evidence.maxSymbols - evidence.reserve + world.rows.countP (isGivenUp ((rolledPlans evidence tradeDate world).map SessionPlan.symbol)) -
        (world.rows.countP WatchRow.enabled + rolledRoom evidence world) := by
  have hcount := @enabled_applied ⟨world.rows, rolledRoom evidence world, ⟨[], [], [], []⟩⟩ (rolledPlans evidence tradeDate world) hsymbols
  have hleft := @headroom_applied ⟨world.rows, rolledRoom evidence world, ⟨[], [], [], []⟩⟩ (rolledPlans evidence tradeDate world)
    (nodup_rolledPlans hpacks)
  have hkept := @filter_applied ⟨world.rows, rolledRoom evidence world, ⟨[], [], [], []⟩⟩ (rolledPlans evidence tradeDate world)
    (isGivenUp ((rolledPlans evidence tradeDate world).map SessionPlan.symbol))
    (fun row hrow => by unfold isGivenUp; rw [List.contains_iff_mem.mpr hrow, Bool.not_true, Bool.and_false])
  have hretired := @enabled_retirePlans ((rolledPlans evidence tradeDate world).map SessionPlan.symbol) now
    (applySessionPlans evidence.maxSymbols evidence.reserve (rolledPlans evidence tradeDate world) world.rows).rows
  have hgiven : (applySessionPlans evidence.maxSymbols evidence.reserve (rolledPlans evidence tradeDate world) world.rows).rows.countP
        (isGivenUp ((rolledPlans evidence tradeDate world).map SessionPlan.symbol)) =
      world.rows.countP (isGivenUp ((rolledPlans evidence tradeDate world).map SessionPlan.symbol)) := by
    rw [List.countP_eq_length_filter, List.countP_eq_length_filter]
    exact congrArg List.length hkept
  have henabled : (applySessionPlans evidence.maxSymbols evidence.reserve (rolledPlans evidence tradeDate world) world.rows).rows.countP
      WatchRow.enabled = world.rows.countP WatchRow.enabled + rolledRoom evidence world := by
    dsimp only at hleft hcount
    rw [hleft, Nat.sub_eq_zero_of_le (Nat.le_of_lt hmore), Nat.add_zero] at hcount
    exact hcount
  rw [hgiven, henabled] at hretired
  have hrows := roll_rows now hsome
  unfold rolledRoom headroom at hretired hmore ⊢
  rw [hrows]
  omega

include hpacks in
theorem quiet_iff (hsymbols : (world.rows.map WatchRow.symbol).Nodup) :
    Quiet evidence tradeDate now world ↔ PlacesSuffice evidence tradeDate world := by
  unfold PlacesSuffice
  dsimp only
  by_cases hmore : rolledRoom evidence world <
      (rolledPlans evidence tradeDate world).countP (fun plan => needsRoom world.rows plan.symbol)
  · have hsome : rolledRecords evidence tradeDate world ≠ [] := by
      intro hempty
      rw [rolledPlans_of_empty hempty] at hmore
      exact Nat.not_lt_zero _ hmore
    have hroom := rolledRoom_again now hpacks hsymbols hsome hmore
    constructor
    · intro hquiet
      obtain ⟨last, hlast, hneeds, hbehind⟩ := exists_left_out (nodup_rolledPlans hpacks) hmore
      have hfull : rolledRoom evidence (roll evidence tradeDate now world) = 0 := by
        refine hquiet last.symbol (List.mem_map_of_mem hlast) ?_
        have hnotfree : hasRoom evidence tradeDate world last.symbol = false := by
          unfold hasRoom
          rw [decide_eq_false_iff_not, Nat.not_lt]
          exact hbehind
        have hnot : isWritten (hasRoom evidence tradeDate world last.symbol)
            (Keyed.find WatchRow.symbol last.symbol world.rows) = false := by
          rw [hnotfree]
          exact isWritten_of_needsRoom hneeds false
        unfold needsRoom at hneeds ⊢
        rw [find_roll_of_planned now hpacks hlast, placed_of_not_written hnot]
        exact hneeds
      rw [hroom] at hfull
      exact Or.inr (Nat.sub_eq_zero_iff_le.mp hfull)
    · rintro (hfew | hfull)
      · omega
      · intro symbol _ _
        rw [hroom]
        exact Nat.sub_eq_zero_iff_le.mpr hfull
  · refine iff_of_true (fun symbol hsymbol hneeds => ?_) (Or.inl (Nat.not_lt.mp hmore))
    -- every plan that needed a place got one, so its row is enabled now
    exfalso
    obtain ⟨offered, hoffered, rfl⟩ := List.mem_map.mp hsymbol
    have hfind := find_roll_of_planned now hpacks hoffered
    unfold needsRoom at hneeds
    rw [hfind] at hneeds
    rcases hwritten : isWritten (hasRoom evidence tradeDate world offered.symbol)
      (Keyed.find WatchRow.symbol offered.symbol world.rows)
    · rw [placed_of_not_written hwritten] at hneeds
      have hlt := @takenBefore_lt offered _ world.rows hoffered hneeds
      have hfree : hasRoom evidence tradeDate world offered.symbol = true := decide_eq_true (by omega)
      rw [hfree, isWritten_of_needsRoom hneeds true] at hwritten
      exact absurd hwritten (by decide)
    · obtain ⟨after, hafter, henabled, -⟩ := placed_of_written offered hwritten
      rw [hafter] at hneeds
      simp [henabled] at hneeds

end Again

end TradingHarness.Teacher
