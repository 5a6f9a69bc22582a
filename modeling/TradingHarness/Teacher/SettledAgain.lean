import TradingHarness.Teacher.RollAgain

set_option autoImplicit false

/-! # Settling a session again

The newest settlement of a session is the one readers take. The second roll settles the stocks in their window as
the first did, and of the stocks past it only those whose rows still hold the plan of the settled session. -/

namespace TradingHarness.Teacher

/-! ## The newest settlement -/

/-- The later of two settlements. -/
def laterSettlement (best : Option Settlement) (stored : Settlement) : Option Settlement :=
  match best with
  | none => some stored
  | some kept => if kept.availableAt ≤ stored.availableAt then some stored else some kept

/-- The newest stored settlement of a session, as `recent_settlements` orders them. -/
def newestSettlement (settlements : List Settlement) (date : Date) : Option Settlement :=
  (settlements.filter (fun stored => decide (stored.effectiveDate = date))).foldl laterSettlement none

/-- The settled stocks of each pack with their facts. -/
def packFacts (packs : List PackSettlement) : List (String × List Fact) := packs.map (fun settled => (settled.packId, settled.stocks))

/-- What the newest settlement of a session lists. -/
def settledFacts (settlements : List Settlement) (date : Date) : List (String × List Fact) :=
  ((newestSettlement settlements date).map (fun stored => packFacts stored.packs)).getD []

section Settlements

variable {β : Type} (evidence : Evidence β) (tradeDate : Date) (now : Timestamp) (world : World)

/-- The settlements of a roll, pack by pack. -/
def rolledSettlements : List PackSettlement :=
  (rolledRecords evidence tradeDate world).filterMap (recordSettlement evidence tradeDate world.rows)

variable {evidence tradeDate now world}

variable (evidence tradeDate now world) in
theorem roll_settlements :
    ((roll evidence tradeDate now world).settlements = world.settlements ∧ rolledSettlements evidence tradeDate world = []) ∨
      ∃ result, (roll evidence tradeDate now world).settlements =
        persistSettlement ⟨tradeDate, now, rolledSettlements evidence tradeDate world, result⟩ world.settlements := by
  unfold roll
  dsimp only
  split
  next hempty =>
    refine Or.inl ⟨rfl, ?_⟩
    unfold rolledSettlements rolledRecords
    rw [List.isEmpty_iff.mp hempty]
    rfl
  next =>
    dsimp only
    split
    next hnothing =>
      rw [Bool.and_eq_true, List.isEmpty_iff] at hnothing
      exact Or.inl ⟨rfl, hnothing.1⟩
    next => exact Or.inr ⟨_, rfl⟩

variable (evidence now) in
theorem settledFacts_first (hfirst : ∀ stored ∈ world.settlements, stored.effectiveDate ≠ tradeDate) :
    settledFacts (roll evidence tradeDate now world).settlements tradeDate = packFacts (rolledSettlements evidence tradeDate world) ∧
      ∀ stored ∈ (roll evidence tradeDate now world).settlements, stored.effectiveDate = tradeDate →
        stored.availableAt = now ∧ stored.packs = rolledSettlements evidence tradeDate world := by
  have hnone : world.settlements.filter (fun stored => decide (stored.effectiveDate = tradeDate)) = [] :=
    List.filter_eq_nil_iff.mpr (fun stored hstored => by simpa using hfirst stored hstored)
  rcases roll_settlements evidence tradeDate now world with ⟨hsame, hempty⟩ | ⟨result, hstored⟩
  · rw [hsame, hempty]
    refine ⟨?_, fun stored hstored hdate => absurd hdate (hfirst stored hstored)⟩
    unfold settledFacts newestSettlement
    rw [hnone]
    rfl
  · have hfresh : world.settlements.any (fun stored => decide (stored.effectiveDate = tradeDate) &&
        decide (stored.packs = rolledSettlements evidence tradeDate world) && decide (stored.roll = result)) = false := by
      rw [List.any_eq_false]
      intro stored hmem
      simp [hfirst stored hmem]
    have hlist : (roll evidence tradeDate now world).settlements =
        world.settlements ++ [⟨tradeDate, now, rolledSettlements evidence tradeDate world, result⟩] := by
      rw [hstored]
      unfold persistSettlement
      dsimp only
      rw [hfresh]
      rfl
    rw [hlist]
    constructor
    · unfold settledFacts newestSettlement
      rw [List.filter_append, hnone, List.filter_cons, if_pos (decide_eq_true rfl)]
      rfl
    · intro stored hmem hdate
      rcases List.mem_append.mp hmem with hold | hnew
      · exact absurd hdate (hfirst stored hold)
      · rw [List.mem_singleton.mp hnew]
        exact ⟨rfl, rfl⟩

theorem mem_of_newest {settlements : List Settlement} {best : Option Settlement} {kept : Settlement}
    (h : settlements.foldl laterSettlement best = some kept) : kept ∈ settlements ∨ best = some kept := by
  induction settlements generalizing best with
  | nil => exact Or.inr h
  | cons stored rest ih =>
      rcases ih h with hrest | hbest
      · exact Or.inl (List.mem_cons_of_mem stored hrest)
      · unfold laterSettlement at hbest
        split at hbest
        next => exact Or.inl (Option.some.inj hbest ▸ List.mem_cons_self)
        next =>
          split at hbest
          next => exact Or.inl (Option.some.inj hbest ▸ List.mem_cons_self)
          next => exact Or.inr hbest

theorem newestSettlement_concat {settlements : List Settlement} {date : Date} {stored : Settlement} (hdate : stored.effectiveDate = date)
    (hnewest : ∀ other ∈ settlements, other.effectiveDate = date → other.availableAt ≤ stored.availableAt) :
    newestSettlement (settlements ++ [stored]) date = some stored := by
  unfold newestSettlement
  rw [List.filter_append, List.filter_cons, if_pos (decide_eq_true hdate), List.filter_nil, List.foldl_append, List.foldl_cons,
    List.foldl_nil]
  unfold laterSettlement
  split
  next => rfl
  next kept hkept =>
    rcases mem_of_newest hkept with hmem | hnone
    · obtain ⟨hmem, hkeptdate⟩ := List.mem_filter.mp hmem
      rw [if_pos (hnewest kept hmem (of_decide_eq_true hkeptdate))]
    · exact absurd hnone (by simp)

variable (evidence tradeDate now world) in
theorem length_rolledSettlements : (rolledSettlements evidence tradeDate (roll evidence tradeDate now world)).length =
    (rolledSettlements evidence tradeDate world).length := by
  have hsome : ∀ record, (recordSettlement evidence tradeDate (roll evidence tradeDate now world).rows record).isSome =
      (recordSettlement evidence tradeDate world.rows record).isSome := by
    intro record
    unfold recordSettlement
    dsimp only
    split
    next => split <;> rfl
    next => rfl
  unfold rolledSettlements
  rw [rolledRecords_again, List.length_filterMap_eq_countP, List.length_filterMap_eq_countP]
  exact List.countP_congr (fun record _ => by rw [hsome])

/-- **After the second roll the newest settlement lists what the second roll settled.** -/
theorem settledFacts_second (hfirst : ∀ stored ∈ world.settlements, stored.effectiveDate ≠ tradeDate) {again : Timestamp}
    (hlater : now < again) :
    settledFacts (roll evidence tradeDate again (roll evidence tradeDate now world)).settlements tradeDate =
      packFacts (rolledSettlements evidence tradeDate (roll evidence tradeDate now world)) := by
  obtain ⟨hlisted, hstored⟩ := settledFacts_first evidence now hfirst
  rcases roll_settlements evidence tradeDate again (roll evidence tradeDate now world)
    with ⟨hsame, hempty⟩ | ⟨result, hpersist⟩
  · have hlength := length_rolledSettlements evidence tradeDate now world
    rw [hempty] at hlength ⊢
    rw [hsame, hlisted, List.length_eq_zero_iff.mp hlength.symm]
  · rw [hpersist]
    unfold persistSettlement
    split
    next hduplicate =>
      obtain ⟨stored, hmem, hsame⟩ := List.any_eq_true.mp hduplicate
      simp only [Bool.and_eq_true, decide_eq_true_eq] at hsame
      rw [hlisted, ← hsame.1.2, (hstored stored hmem hsame.1.1).2]
    next =>
      unfold settledFacts
      rw [newestSettlement_concat rfl]
      · rfl
      · intro other hother hdate
        rw [(hstored other hother hdate).1]
        exact Int.le_of_lt hlater

/-! ## The stocks settled again -/

variable (evidence tradeDate world) in
/-- Whether a roll leaves the plan of a live row on the settled session: it retires a row of its own, and plans that find
    no place change nothing. -/
def staysLive (row : WatchRow) : Bool :=
  if ((rolledPlans evidence tradeDate world).map SessionPlan.symbol).contains row.symbol then
    !isWritten (hasRoom evidence tradeDate world row.symbol) (some row)
  else row.ours

/-- A row with a live plan of a pack. -/
def isLive (tradeDate : Date) (packId : String) (row : WatchRow) : Bool :=
  row.plan.any (fun plan => plan.packId == packId && decide (plan.sessionDate = tradeDate))

variable (evidence tradeDate world) in
/-- The stocks of a pack that are still live on the settled session once the roll is done. -/
def keptCodes (packId : String) : List Code :=
  ((world.rows.filter (isLive tradeDate packId)).filter (staysLive evidence tradeDate world)).map (fun row => row.symbol.take 6)

theorem symbols_roll (hsymbols : (world.rows.map WatchRow.symbol).Nodup) (hsome : rolledRecords evidence tradeDate world ≠ []) :
    ((roll evidence tradeDate now world).rows.map WatchRow.symbol).Nodup := by
  rw [roll_rows now hsome, symbols_retirePlans]
  exact @symbols_applied ⟨world.rows, _, ⟨[], [], [], []⟩⟩ _ hsymbols

variable (now) in
theorem isLive_roll (hpacks : PacksValid world.packs) (hsome : rolledRecords evidence tradeDate world ≠ []) {row after : WatchRow}
    (hrow : Keyed.find WatchRow.symbol row.symbol world.rows = some row)
    (hafter : Keyed.find WatchRow.symbol row.symbol (roll evidence tradeDate now world).rows = some after) (packId : String) :
    isLive tradeDate packId after = (isLive tradeDate packId row && staysLive evidence tradeDate world row) := by
  unfold staysLive
  by_cases hplanned : row.symbol ∈ (rolledPlans evidence tradeDate world).map SessionPlan.symbol
  · obtain ⟨offered, hoffered, hsymbol⟩ := List.mem_map.mp hplanned
    rw [List.contains_iff_mem.mpr hplanned, if_pos rfl]
    have hfind := find_roll_of_planned now hpacks hoffered
    rw [hsymbol, hrow, hafter] at hfind
    rcases hwritten : isWritten (hasRoom evidence tradeDate world row.symbol) (some row)
    · rw [placed_of_not_written hwritten] at hfind
      rw [Option.some.inj hfind, Bool.not_false, Bool.and_true]
    · obtain ⟨placedRow, hplaced, -, hplan⟩ := placed_of_written offered hwritten
      rw [hplaced] at hfind
      have hdate := lt_of_nextSession (session_of_rolledPlan hpacks hoffered)
      rw [Option.some.inj hfind, Bool.not_true, Bool.and_false]
      unfold isLive
      rw [hplan, Option.any_some, decide_eq_false (Int.ne_of_gt hdate), Bool.and_false]
  · have hfind := find_roll_of_not_planned now hsome hplanned
    rw [hrow, hafter, Option.map_some] at hfind
    rw [if_neg (by simpa using hplanned), Option.some.inj hfind]
    unfold retireRow isLive
    rcases hplan : row.plan with _ | plan
    · simp [hplan]
    · rcases hours : row.ours <;> simp

theorem exists_old_row (hpacks : PacksValid world.packs) (hsome : rolledRecords evidence tradeDate world ≠ []) {after : WatchRow}
    (hafter : Keyed.find WatchRow.symbol after.symbol (roll evidence tradeDate now world).rows = some after) {packId : String}
    (hlive : isLive tradeDate packId after = true) :
    ∃ row, Keyed.find WatchRow.symbol after.symbol world.rows = some row := by
  rcases hrow : Keyed.find WatchRow.symbol after.symbol world.rows with _ | row
  · exfalso
    by_cases hplanned : after.symbol ∈ (rolledPlans evidence tradeDate world).map SessionPlan.symbol
    · obtain ⟨offered, hoffered, hsymbol⟩ := List.mem_map.mp hplanned
      have hfind := find_roll_of_planned now hpacks hoffered
      rw [hsymbol, hrow, hafter] at hfind
      have hdate := lt_of_nextSession (session_of_rolledPlan hpacks hoffered)
      unfold placed at hfind
      dsimp only at hfind
      split at hfind
      next =>
        rw [Option.some.inj hfind] at hlive
        unfold isLive at hlive
        rw [Option.any_some, decide_eq_false (Int.ne_of_gt hdate), Bool.and_false] at hlive
        exact absurd hlive Bool.false_ne_true
      next => exact absurd hfind (by simp)
    · rw [find_roll_of_not_planned now hsome hplanned, hrow] at hafter
      exact absurd hafter (by simp)
  · exact ⟨row, rfl⟩

variable (now) in
/-- **What is carried in the second roll.** -/
theorem mem_carriedCodes_again (hpacks : PacksValid world.packs) (hsymbols : (world.rows.map WatchRow.symbol).Nodup)
    (hsome : rolledRecords evidence tradeDate world ≠ []) (packId : String) (code : Code) :
    code ∈ carriedCodes tradeDate (roll evidence tradeDate now world).rows packId ↔ code ∈ keptCodes evidence tradeDate world packId := by
  constructor
  · intro hcode
    obtain ⟨after, hafter, rfl⟩ := List.mem_map.mp hcode
    obtain ⟨hmem, hlive⟩ := List.mem_filter.mp hafter
    have hfind := Keyed.find_of_mem (symbols_roll hsymbols hsome) hmem
    obtain ⟨row, hrow⟩ := exists_old_row hpacks hsome hfind hlive
    obtain ⟨hold, hsymbol⟩ := Keyed.mem_of_find hrow
    rw [← hsymbol] at hrow hfind
    have hboth := isLive_roll now hpacks hsome hrow hfind packId
    have hlive' : isLive tradeDate packId after = true := hlive
    rw [hlive', eq_comm, Bool.and_eq_true] at hboth
    exact List.mem_map.mpr ⟨row, List.mem_filter.mpr ⟨List.mem_filter.mpr ⟨hold, hboth.1⟩, hboth.2⟩, by rw [hsymbol]⟩
  · intro hcode
    obtain ⟨row, hrow, rfl⟩ := List.mem_map.mp hcode
    obtain ⟨hrow, hstays⟩ := List.mem_filter.mp hrow
    obtain ⟨hmem, hlive⟩ := List.mem_filter.mp hrow
    have hfind := Keyed.find_of_mem hsymbols hmem
    have hafter : ∃ after, Keyed.find WatchRow.symbol row.symbol (roll evidence tradeDate now world).rows = some after := by
      by_cases hplanned : row.symbol ∈ (rolledPlans evidence tradeDate world).map SessionPlan.symbol
      · obtain ⟨offered, hoffered, hsymbol⟩ := List.mem_map.mp hplanned
        have hplaced := find_roll_of_planned now hpacks hoffered
        rw [hsymbol, hfind] at hplaced
        rw [hplaced]
        unfold placed
        dsimp only
        split
        next => exact ⟨_, rfl⟩
        next => exact ⟨_, rfl⟩
      · rw [find_roll_of_not_planned now hsome hplanned, hfind]
        exact ⟨_, rfl⟩
    obtain ⟨after, hafter⟩ := hafter
    have hboth := isLive_roll now hpacks hsome hfind hafter packId
    obtain ⟨hnew, hsymbol⟩ := Keyed.mem_of_find hafter
    rw [hlive, hstays, Bool.and_self] at hboth
    exact List.mem_map.mpr ⟨after, List.mem_filter.mpr ⟨hnew, hboth⟩, by rw [hsymbol]⟩

/-! ## The same settlement -/

variable (evidence tradeDate world) in
/-- Every stock past its window that a pack's settlement has because it is carried is still live once the roll is done. -/
def CarriedStay : Prop :=
  ∀ record ∈ rolledRecords evidence tradeDate world,
    let sessions := sessionsBetween evidence.calendar record.pack.reviewDate tradeDate
    ∀ firstIndex, eligibleIndex sessions record.availableAt = some firstIndex → tradeDate ∈ sessions →
      ∀ stock ∈ record.pack.stocks, inWindow stock (sessions.idxOf tradeDate + 1) firstIndex = false →
        stock.code ∈ carriedCodes tradeDate world.rows record.pack.packId →
          stock.code ∈ keptCodes evidence tradeDate world record.pack.packId

theorem keptCodes_subset {packId : String} {code : Code} (h : code ∈ keptCodes evidence tradeDate world packId) :
    code ∈ carriedCodes tradeDate world.rows packId := by
  obtain ⟨row, hrow, rfl⟩ := List.mem_map.mp h
  exact List.mem_map_of_mem (List.mem_filter.mp hrow).1

theorem map_filter_eq_iff {α γ : Type} (f : α → γ) (wide narrow : α → Bool) (entries : List α)
    (hwithin : ∀ entry ∈ entries, narrow entry = true → wide entry = true) :
    (entries.filter narrow).map f = (entries.filter wide).map f ↔
      ∀ entry ∈ entries, wide entry = true → narrow entry = true := by
  have hfilter : entries.filter narrow = (entries.filter wide).filter narrow := by
    rw [List.filter_filter]
    refine List.filter_congr (fun entry hentry => ?_)
    rcases hnarrow : narrow entry
    · rfl
    · rw [hwithin entry hentry hnarrow]
      rfl
  constructor
  · intro hsame entry hentry hwide
    have hlength := congrArg List.length hsame
    rw [List.length_map, List.length_map, hfilter, List.length_filter_eq_length_iff] at hlength
    exact hlength entry (List.mem_filter.mpr ⟨hentry, hwide⟩)
  · intro hall
    rw [List.filter_congr (fun entry hentry => ?_)]
    rcases hnarrow : narrow entry <;> rcases hwide : wide entry
    · rfl
    · rw [hall entry hentry hwide] at hnarrow
      exact absurd hnarrow (by simp)
    · rw [hwithin entry hentry hnarrow] at hwide
      exact absurd hwide (by simp)
    · rfl

theorem filterMap_eq_iff {α γ : Type} (f g : α → Option γ) (entries : List α)
    (hsome : ∀ entry ∈ entries, (f entry).isSome = (g entry).isSome) :
    entries.filterMap f = entries.filterMap g ↔ ∀ entry ∈ entries, f entry = g entry := by
  induction entries with
  | nil => simp
  | cons first rest ih =>
      have hrest := ih (fun entry hentry => hsome entry (List.mem_cons_of_mem first hentry))
      have hfirst := hsome first List.mem_cons_self
      rw [List.forall_mem_cons, ← hrest, List.filterMap_cons, List.filterMap_cons]
      rcases hf : f first with _ | value <;> rcases hg : g first with _ | other
      · simp
      · simp [hf, hg] at hfirst
      · simp [hf, hg] at hfirst
      · simp

/-- The settled facts of one pack. -/
def recordFacts (evidence : Evidence β) (tradeDate : Date) (rows : List WatchRow) (record : Record) : Option (String × List Fact) :=
  (recordSettlement evidence tradeDate rows record).map (fun settled => (settled.packId, settled.stocks))

theorem recordFacts_isSome (rows other : List WatchRow) (record : Record) :
    (recordFacts evidence tradeDate rows record).isSome = (recordFacts evidence tradeDate other record).isSome := by
  unfold recordFacts recordSettlement
  dsimp only
  split
  next => split <;> rfl
  next => rfl

theorem packFacts_rolled : packFacts (rolledSettlements evidence tradeDate world) =
    (rolledRecords evidence tradeDate world).filterMap (recordFacts evidence tradeDate world.rows) := by
  unfold packFacts rolledSettlements
  rw [List.map_filterMap]
  rfl

section

variable (hpacks : PacksValid world.packs)

include hpacks

section

variable (hsymbols : (world.rows.map WatchRow.symbol).Nodup)

include hsymbols

theorem recordFacts_again {record : Record}
    (hrecord : record ∈ rolledRecords evidence tradeDate world) :
    recordFacts evidence tradeDate (roll evidence tradeDate now world).rows record = recordFacts evidence tradeDate world.rows record ↔
      let sessions := sessionsBetween evidence.calendar record.pack.reviewDate tradeDate
      ∀ firstIndex, eligibleIndex sessions record.availableAt = some firstIndex → tradeDate ∈ sessions →
        ∀ stock ∈ record.pack.stocks, inWindow stock (sessions.idxOf tradeDate + 1) firstIndex = false →
          stock.code ∈ carriedCodes tradeDate world.rows record.pack.packId →
            stock.code ∈ keptCodes evidence tradeDate world record.pack.packId := by
  have hsome : rolledRecords evidence tradeDate world ≠ [] := List.ne_nil_of_mem hrecord
  have hcarried := fun code => mem_carriedCodes_again now hpacks hsymbols hsome record.pack.packId code
  dsimp only
  generalize hsessions : sessionsBetween evidence.calendar record.pack.reviewDate tradeDate = sessions
  unfold recordFacts recordSettlement
  rw [hsessions]
  dsimp only
  rcases hfirst : eligibleIndex sessions record.availableAt with _ | firstIndex
  · simp
  · by_cases hsession : tradeDate ∈ sessions
    · rw [List.contains_iff_mem.mpr hsession]
      dsimp only
      rw [if_pos rfl, if_pos rfl, Option.map_some, Option.map_some, Option.some.injEq, Prod.mk.injEq]
      have hlists := map_filter_eq_iff (settleStock evidence record.pack.packId)
        (fun stock => inWindow stock (sessions.idxOf tradeDate + 1) firstIndex ||
          (carriedCodes tradeDate world.rows record.pack.packId).contains stock.code)
        (fun stock => inWindow stock (sessions.idxOf tradeDate + 1) firstIndex ||
          (carriedCodes tradeDate (roll evidence tradeDate now world).rows record.pack.packId).contains stock.code)
        record.pack.stocks (fun stock _ hnarrow => by
          rw [Bool.or_eq_true, List.contains_iff_mem] at hnarrow ⊢
          exact hnarrow.imp id (fun h => keptCodes_subset ((hcarried stock.code).mp h)))
      refine (and_iff_right rfl).trans (hlists.trans ⟨fun h index hindex _ stock hstock hout hmem => ?_, fun h stock hstock hwide => ?_⟩)
      · rw [← Option.some.inj hindex] at hout
        have hnarrow := h stock hstock (by rw [List.contains_iff_mem.mpr hmem, Bool.or_true])
        rw [hout, Bool.false_or, List.contains_iff_mem] at hnarrow
        exact (hcarried stock.code).mp hnarrow
      · rcases hwindow : inWindow stock (sessions.idxOf tradeDate + 1) firstIndex
        · rw [hwindow, Bool.false_or, List.contains_iff_mem] at hwide
          have hkept := h firstIndex rfl hsession stock hstock hwindow hwide
          rw [List.contains_iff_mem.mpr ((hcarried stock.code).mpr hkept), Bool.or_true]
        · rfl
    · have hcontains : sessions.contains tradeDate = false := by
        rw [Bool.eq_false_iff, ne_eq, List.contains_iff_mem]
        exact hsession
      rw [hcontains]
      simp [hsession]

theorem packFacts_again_iff :
    packFacts (rolledSettlements evidence tradeDate (roll evidence tradeDate now world)) =
      packFacts (rolledSettlements evidence tradeDate world) ↔ CarriedStay evidence tradeDate world := by
  rw [packFacts_rolled, packFacts_rolled, rolledRecords_again,
    filterMap_eq_iff _ _ _ (fun record _ => recordFacts_isSome _ _ record)]
  exact forall₂_congr (fun record hrecord => recordFacts_again hpacks hsymbols hrecord)

/-- **Rolling a session a second time leaves the same plans for the next session, and its newest settlement lists the same
    stocks with the same facts, exactly where every plan that needed a place had one (or no place came free), and where
    every stock settled past its window keeps its plan on the settled session.** -/
theorem roll_again_iff (hfirst : ∀ stored ∈ world.settlements, stored.effectiveDate ≠ tradeDate) {again : Timestamp} (hlater : now < again) :
    (SamePlans evidence tradeDate now world again ∧
      settledFacts (roll evidence tradeDate again (roll evidence tradeDate now world)).settlements tradeDate =
        settledFacts (roll evidence tradeDate now world).settlements tradeDate) ↔
      PlacesSuffice evidence tradeDate world ∧ CarriedStay evidence tradeDate world := by
  rw [settledFacts_second hfirst hlater, (settledFacts_first evidence now hfirst).1, packFacts_again_iff hpacks hsymbols]
  refine and_congr_left (fun _ => ?_)
  rw [← quiet_iff hpacks hsymbols]
  exact ⟨quiet_of_samePlans hpacks, fun hquiet => samePlans_of_quiet hpacks hquiet again⟩

end

end

end Settlements

/-! ## Witness and counterexample -/

/-- A relay stock with a window of one session, reviewed on day 0. -/
def relayStock : Stock := ⟨"600176".toList, "relay", .positive, .relayRace, ⟨none, none, none, none⟩, 1⟩

def relayRecord : Record := ⟨⟨"aaaa0000", 0, [relayStock], []⟩, 43200000000⟩

/-- A session every day from day 1 to 9, a bar of 10 yuan, and twenty stored bars through the session. -/
def quietSession (tradeDate : Date) : Evidence Unit where
  calendar := [1, 2, 3, 4, 5, 6, 7, 8, 9]
  sessionBar _ := some ⟨some 10, 10, 10, 10, some 11⟩
  firstLimitUp _ := none
  xiaojieModes _ := []
  events := []
  planBars _ := ⟨true, some tradeDate, List.replicate 20 ()⟩
  planStock _ _ := ⟨some 40, some 90, none, none⟩
  maxSymbols := 30
  reserve := 5
  lookbackDays := 14

/-- The stock's plan, live on a session. -/
def relayPlan (state : State) (sessionDate : Date) (sessionIndex : ℕ) : Plan where
  status := state.status
  lifecycle := { state := state, since := 1 }
  packId := "aaaa0000"
  reviewDate := 0
  sessionDate := sessionDate
  sessionIndex := sessionIndex
  validSessions := sessionIndex
  code := relayStock.code
  name := "relay"
  stance := .positive
  playbook := .relayRace
  params := ⟨none, none, none, none⟩
  extra := ⟨some 40, some 90, none, none⟩

/-- The watch pool with the stock's plan in a row of the roll's own. -/
def relayWorld (plan : Plan) : World := ⟨[relayRecord], [⟨"600176.SH".toList, true, true, some plan⟩], []⟩

theorem relayPacks_valid : PacksValid [relayRecord] := by
  refine ⟨fun record hrecord => ?_, List.nodup_singleton _⟩
  rw [List.mem_singleton.mp hrecord]
  refine ⟨fun stock hstock => ?_, fun stock hstock => ?_, List.nodup_singleton _⟩
  · rw [List.mem_singleton.mp hstock]
    rfl
  · rw [List.mem_singleton.mp hstock]
    decide

/-- The first session of the review, rolled twice. -/
theorem roll_again_iff_first_session :
    SamePlans (quietSession 1) 1 115200000000 (relayWorld (relayPlan .new 1 1)) 115300000000 ∧
      settledFacts (roll (quietSession 1) 1 115300000000
          (roll (quietSession 1) 1 115200000000 (relayWorld (relayPlan .new 1 1)))).settlements 1 =
        settledFacts (roll (quietSession 1) 1 115200000000 (relayWorld (relayPlan .new 1 1))).settlements 1 := by
  have hpacks : PacksValid (relayWorld (relayPlan .new 1 1)).packs := relayPacks_valid
  have hsymbols : ((relayWorld (relayPlan .new 1 1)).rows.map WatchRow.symbol).Nodup := List.nodup_singleton _
  refine (roll_again_iff hpacks hsymbols (fun _ h => absurd h List.not_mem_nil) (by decide)).mpr ⟨?_, ?_⟩
  · exact Or.inl (by decide +kernel)
  · intro record hrecord
    have hrecords : rolledRecords (quietSession 1) 1 (relayWorld (relayPlan .new 1 1)) = [relayRecord] := by decide +kernel
    rw [hrecords] at hrecord
    rw [List.mem_singleton.mp hrecord]
    intro sessions firstIndex hfirst _ stock hstock hout
    have hindex : firstIndex = 1 := Option.some.inj (hfirst.symm.trans (by decide +kernel))
    rw [List.mem_singleton.mp hstock, hindex] at hout
    exact absurd hout (by decide +kernel)

/-- A promoted plan past its window moves on, and the second settlement leaves its stock out. -/
theorem promoted_stock_is_settled_once : ¬ ∀ (evidence : Evidence Unit) (tradeDate : Date) (now again : Timestamp) (world : World),
    PacksValid world.packs → (world.rows.map WatchRow.symbol).Nodup →
      (∀ stored ∈ world.settlements, stored.effectiveDate ≠ tradeDate) → now < again →
        SamePlans evidence tradeDate now world again ∧
          settledFacts (roll evidence tradeDate again (roll evidence tradeDate now world)).settlements tradeDate =
            settledFacts (roll evidence tradeDate now world).settlements tradeDate := by
  intro h
  have hsame := (h (quietSession 2) 2 201600000000 201700000000 (relayWorld (relayPlan .promoted 2 2)) relayPacks_valid
    (List.nodup_singleton _) (fun _ hstored => absurd hstored List.not_mem_nil) (by decide)).2
  exact absurd hsame (by decide +kernel)

/-! ## The watch pool over many rolls -/

section Pool

variable {β : Type} {own : WatchRow}

/-- The row is there, whatever its plan. -/
def Stands (own : WatchRow) (rows : List WatchRow) : Prop :=
  ∃ plan, Keyed.find WatchRow.symbol own.symbol rows = some { own with plan := plan }

/-- Laying plans on a pool leaves the row of another owner. -/
theorem stands_applied (plans : List SessionPlan) {state : ApplyState} (hforeign : own.ours = false) (h : Stands own state.rows) :
    Stands own (plans.foldl applyPlan state).rows := by
  induction plans generalizing state with
  | nil => exact h
  | cons first rest ih =>
      refine ih ?_
      obtain ⟨plan, hfind⟩ := h
      by_cases hsymbol : own.symbol = first.symbol
      · rw [Stands, hsymbol, find_applyPlan_self, ← hsymbol, hfind]
        rcases henabled : own.enabled
        · exact ⟨plan, by simp [placed, hforeign]⟩
        · exact ⟨some first.plan, by simp [placed, mergePlan]⟩
      · exact ⟨plan, by rw [find_applyPlan_of_ne hsymbol, hfind]⟩

/-- What rolls keep of the pool. -/
structure PoolKept (limit : ℕ) (before after : List WatchRow) : Prop where
  symbols : (after.map WatchRow.symbol).Nodup
  enabled : after.countP WatchRow.enabled ≤ max (before.countP WatchRow.enabled) limit
  foreign : ∀ own : WatchRow, own.ours = false → Stands own before → Stands own after

/-- A roll with its evidence, session and moment. -/
def rollOnce (world : World) (step : Evidence β × Date × Timestamp) : World := roll step.1 step.2.1 step.2.2 world

theorem poolKept_roll (step : Evidence β × Date × Timestamp) (world : World) (hsymbols : (world.rows.map WatchRow.symbol).Nodup) :
    PoolKept (step.1.maxSymbols - step.1.reserve) world.rows (rollOnce world step).rows := by
  unfold rollOnce roll
  dsimp only
  split
  next => exact ⟨hsymbols, le_max_left _ _, fun _ _ h => h⟩
  next =>
    generalize rollPlans step.1 step.2.1 world.rows _ = plans
    generalize happly : applySessionPlans step.1.maxSymbols step.1.reserve plans world.rows = applied
    have happlied := @enabled_applied ⟨world.rows, headroom step.1.maxSymbols step.1.reserve world.rows, ⟨[], [], [], []⟩⟩ plans hsymbols
    rw [← applySessionPlans, happly] at happlied
    have hretired := @enabled_retirePlans (plans.map SessionPlan.symbol) step.2.2 applied.rows
    refine ⟨by rw [symbols_retirePlans, ← happly]; exact symbols_applied hsymbols, ?_, fun own hforeign h => ?_⟩
    · unfold headroom at happlied
      dsimp only at happlied ⊢
      omega
    · obtain ⟨plan, hplan⟩ : Stands own applied.rows := happly ▸ stands_applied plans hforeign h
      rw [Stands, find_retirePlans, hplan, Option.map_some]
      split
      · exact ⟨plan, rfl⟩
      · exact ⟨none, by cases plan <;> simp [retireRow, hforeign]⟩

/-- **Rolls keep the pool in bounds**: a symbol has one row, no more rows are enabled than before or than the largest limit
    of the rolls, and the row of another owner changes in its plan alone. -/
theorem rolls_keep_pool (rolls : List (Evidence β × Date × Timestamp)) (world : World) (limit : ℕ)
    (hsymbols : (world.rows.map WatchRow.symbol).Nodup) (hlimit : ∀ step ∈ rolls, step.1.maxSymbols - step.1.reserve ≤ limit) :
    PoolKept limit world.rows (rolls.foldl rollOnce world).rows := by
  induction rolls generalizing world with
  | nil => exact ⟨hsymbols, le_max_left _ _, fun _ _ h => h⟩
  | cons step rest ih =>
      have hfirst := poolKept_roll step world hsymbols
      have hrest := ih _ hfirst.symbols (fun other hother => hlimit other (List.mem_cons_of_mem _ hother))
      refine ⟨hrest.symbols, ?_, fun own hforeign h => hrest.foreign own hforeign (hfirst.foreign own hforeign h)⟩
      have hstep := hlimit step List.mem_cons_self
      have hbound := hfirst.enabled
      have hlater := hrest.enabled
      rw [List.foldl_cons]
      omega

theorem rolls_keep_pool_first_session :
    ([(quietSession 1, 1, 115200000000)].foldl rollOnce (relayWorld (relayPlan .new 1 1))).rows.countP WatchRow.enabled ≤ 25 :=
  (rolls_keep_pool [(quietSession 1, 1, 115200000000)] (relayWorld (relayPlan .new 1 1)) 25 (List.nodup_singleton _) (by decide)).enabled

end Pool

end TradingHarness.Teacher
