import TradingHarness.Relay.Reminders

set_option autoImplicit false

/-! # One expiry, one reminder

Every run whose steps keep the reminders single, and what each of its steps does to a member's row. -/

namespace TradingHarness.Memberships

open Notices (Phase Party State)

section Runs

variable {userId : String} {world : World}

/-! ## What should hold -/

/-- What one step may do to a member's row. -/
structure StepRight (userId : String) (world : World) (op : Op) (after : World) : Prop where
  /-- A review whose send failed leaves the member to a later review, unless it was reminded or updated, or another call has its claim. -/
  released : ∀ n claim batch rest member, op = .sql n → world.calls[n]? = some (.releasing claim batch rest) → claim.review = true →
    member ∈ batch → member.userId = userId → ∃ row, findMember userId after.members = some row ∧
      (row.remindedOn ≠ none ∨ member.updates < row.updates ∨
        (∃ m call claimAt, m ≠ n ∧ after.calls[m]? = some call ∧ (call.part userId).map Party.stamp = some claimAt ∧
          row.remindClaimedAt = some claimAt) ∨
        Due after row)
  /-- Only a call whose text went out marks the member as reminded, and its claim is the last one, of the same period. -/
  marked : ∀ row, findMember userId after.members = some row → row.remindedOn ≠ none →
    (findMember userId world.members).bind Member.remindedOn ≠ row.remindedOn →
    ∃ before n claim batch rest member, findMember userId world.members = some before ∧ op = .sql n ∧
      world.calls[n]? = some (.marking claim batch rest) ∧ member ∈ batch ∧ member.userId = userId ∧ before.holder = some n ∧
      member.updates = before.updates ∧ ∃ text ∈ world.sent, (userId, member.naming) ∈ text.members
  /-- A review claims only who has expired, is in the group and is not exempt. -/
  claimed : ∀ n byTick config today claimAt claim rest member, op = .sql n →
    world.calls[n]? = some (.claiming (.review false byTick) config today claimAt) → after.calls[n]? = some (.continuing claim rest) →
    member ∈ rest → member.userId = userId → ∃ row, findMember userId world.members = some row ∧
      row.expiresOn ≤ shanghaiDay world.clock ∧ row.leftAt = none ∧ userId ∉ world.settings.exemptUserIds

/-! ## The invariant -/

structure Inv (userId : String) (world : World) : Prop where
  proper : Proper userId world
  notices : Notices.Inv (view userId world)

theorem Inv.period (h : Inv userId world) (call : Call) (hcall : call ∈ world.calls) (part : Party Millis)
    (hof : call.part userId = some part) : part.period ≤ world.updates userId := by
  obtain ⟨n, hn⟩ := List.mem_iff_getElem?.mp hcall
  exact (h.notices.period n part ((partAt_of_call hn).trans hof)).1

theorem inv_step (shanghaiHour : Millis → ℕ) (h : Inv userId world) (op : Op) (hallowed : Allowed userId world op) :
    Inv userId (step shanghaiHour op world) := by
  refine ⟨proper_step h.proper h.period shanghaiHour op hallowed, ?_⟩
  rcases sim_step shanghaiHour h.proper op hallowed with hsame | ⟨act, hact, hview, -⟩
  · rw [hsame]
    exact h.notices
  · rw [hview]
    exact Notices.inv_step h.notices act hact

/-- Rows of a group that no call is at work on. -/
structure Started (world : World) : Prop where
  rows : (world.members.map Member.userId).Nodup
  calls : world.calls = []
  sent : world.sent = []

theorem inv_started (h : Started world) : Inv userId world := by
  have hnone : ∀ call, call ∉ world.calls := by
    rw [h.calls]
    exact fun _ => List.not_mem_nil
  refine ⟨⟨h.rows, fun call hcall => absurd hcall (hnone call), fun call hcall => absurd hcall (hnone call),
    fun call hcall => absurd hcall (hnone call)⟩, Notices.inv_start (fun n => ?_) ?_⟩
  · change world.calls[n]?.bind _ = none
    rw [h.calls]
    rfl
  · change noticesOf userId world.sent = []
    rw [h.sent]
    rfl

/-! ## What a step does -/

/-- **A failed send leaves the member due.** -/
theorem released_right (h : Inv userId world) {n : ℕ} {claim : Claim} {batch rest : List Claimed} {member : Claimed}
    (hcall : world.calls[n]? = some (.releasing claim batch rest)) (hreview : claim.review = true) (hmember : member ∈ batch)
    (hid : member.userId = userId) :
    ∃ row, findMember userId (runSql n (.releasing claim batch rest) world).members = some row ∧
      (row.remindedOn ≠ none ∨ member.updates < row.updates ∨
        (∃ m call claimAt, m ≠ n ∧ (runSql n (.releasing claim batch rest) world).calls[m]? = some call ∧
          (call.part userId).map Party.stamp = some claimAt ∧ row.remindClaimedAt = some claimAt) ∨
        Due (runSql n (.releasing claim batch rest) world) row) := by
  have hmem := List.mem_of_getElem? hcall
  have hnodup := (h.proper.calls _ hmem).members
  change ((batch ++ rest).map Claimed.userId).Nodup at hnodup
  rw [List.map_append, List.nodup_append] at hnodup
  have hfind : findClaimed userId batch = some member := by
    rw [← hid]
    exact Keyed.find_of_mem hnodup.1 hmember
  have hpart : (Call.releasing claim batch rest).part userId = some (claim.part .releasing member) := by
    change claim.partOf userId _ batch rest = _
    unfold Claim.partOf
    rw [hfind]
    rfl
  obtain ⟨row, hrow⟩ := Option.isSome_iff_exists.mp (h.proper.present _ hmem (by rw [hpart]; rfl))
  have hafter := @find_settleRows userId (batch.map Claimed.userId) claim.claimAt none world.members
  rw [hrow, Option.map_some] at hafter
  have hid' := userId_of_find hrow
  refine ⟨_, hafter, ?_⟩
  by_cases hupdates : member.updates = row.updates
  · have hperiod : (claim.part .releasing member).period = world.updates userId := hupdates.trans (updates_of_find hrow).symm
    obtain ⟨hexpired, hleft, hliable⟩ := h.proper.expired _ hmem _ hpart hreview hperiod row hrow
    rw [← hid'] at hliable
    by_cases hclaimed : row.remindClaimedAt = some claim.claimAt
    · -- the claim is the call's own and is dropped
      have hin : userId ∈ batch.map Claimed.userId := List.mem_map.mpr ⟨member, hmember, hid⟩
      rw [if_pos (by simp [hid', hin, hclaimed])]
      rcases hreminded : row.remindedOn with _ | day
      · exact Or.inr (Or.inr (Or.inr ⟨hexpired, hleft, rfl, rfl, hliable⟩))
      · exact Or.inl (by simp)
    · rw [if_neg (by simp [hclaimed])]
      rcases hstamp : row.remindClaimedAt with _ | claimAt
      · rcases hreminded : row.remindedOn with _ | day
        · exact Or.inr (Or.inr (Or.inr ⟨hexpired, hleft, hreminded, hstamp, hliable⟩))
        · exact Or.inl (by simp)
      · have hview : (view userId world).stamp = some claimAt := by
          change (findMember userId world.members).bind Member.remindClaimedAt = _
          rw [hrow]
          exact hstamp
        rcases h.notices.claimed claimAt hview with ⟨m, part, hother, hsame⟩ | hearlier
        · have hother' : world.calls[m]?.bind (Call.part userId) = some part := hother
          obtain ⟨call, hm, hof⟩ := Option.bind_eq_some_iff.mp hother'
          have hne : m ≠ n := by
            intro hmn
            rw [hmn, hcall] at hm
            cases hm
            rw [hpart] at hof
            cases hof
            rw [hstamp, ← hsame] at hclaimed
            exact hclaimed rfl
          refine Or.inr (Or.inr (Or.inl ⟨m, call, claimAt, hne, ?_, ?_, rfl⟩))
          · exact (List.getElem?_set_ne (Ne.symm hne)).trans hm
          · rw [hof, ← hsame]
            rfl
        · have hlt := hearlier n _ ((partAt_of_call hcall).trans hpart)
          change member.updates < world.updates userId at hlt
          rw [updates_of_find hrow, hupdates] at hlt
          exact absurd hlt (Nat.lt_irrefl _)
  · have hle := h.period _ hmem _ hpart
    change member.updates ≤ world.updates userId at hle
    rw [updates_of_find hrow] at hle
    refine Or.inr (Or.inl ?_)
    split
    next => exact Nat.lt_of_le_of_ne hle hupdates
    next => exact Nat.lt_of_le_of_ne hle hupdates

/-- **Only the call of the last claim marks the member**, behind a text that went out. -/
theorem marked_right (shanghaiHour : Millis → ℕ) (h : Inv userId world) (op : Op) (hallowed : Allowed userId world op) (row : Member)
    (hrow : findMember userId (step shanghaiHour op world).members = some row) (hreminded : row.remindedOn ≠ none)
    (hchanged : (findMember userId world.members).bind Member.remindedOn ≠ row.remindedOn) :
    ∃ before n claim batch rest member, findMember userId world.members = some before ∧ op = .sql n ∧
      world.calls[n]? = some (.marking claim batch rest) ∧ member ∈ batch ∧ member.userId = userId ∧ before.holder = some n ∧
      member.updates = before.updates ∧ ∃ text ∈ world.sent, (userId, member.naming) ∈ text.members := by
  obtain ⟨day, hday⟩ := Option.ne_none_iff_exists'.mp hreminded
  have hdone : (view userId (step shanghaiHour op world)).done = some day := by
    change (findMember userId (step shanghaiHour op world).members).bind Member.remindedOn = _
    rw [hrow]
    exact hday
  rw [hday] at hchanged
  rcases sim_step shanghaiHour h.proper op hallowed with hsame | ⟨act, -, hview, hop⟩
  · rw [hsame] at hdone
    exact absurd hdone hchanged
  · rw [hview] at hdone
    obtain ⟨n, part, sent, rfl, hpart, hphase, hstamp⟩ := Notices.recorded_step hdone hchanged
    have hholder := h.notices.current n part hpart hstamp
    have hperiod := (h.notices.period n part hpart).2 hholder
    have hpart' : world.calls[n]?.bind (Call.part userId) = some part := hpart
    obtain ⟨call, hcall, hof⟩ := Option.bind_eq_some_iff.mp hpart'
    obtain ⟨before, hbefore⟩ := Option.isSome_iff_exists.mp (h.proper.present call (List.mem_of_getElem? hcall) (by rw [hof]; rfl))
    change (findMember userId world.members).bind Member.holder = some n at hholder
    change part.period = world.updates userId at hperiod
    rw [hbefore] at hholder
    rw [updates_of_find hbefore] at hperiod
    rcases part_cases hof with hwaiting | ⟨claim, batch, rest, member, rfl, hmember, rfl⟩ | ⟨claim, batch, rest, member, rfl, hmember, rfl⟩ |
      ⟨claim, batch, rest, member, rfl, hmember, rfl⟩
    · rw [hwaiting] at hphase
      exact absurd hphase (by simp)
    · exact absurd hphase (by simp [Claim.part])
    · obtain ⟨hmem, hid⟩ := Keyed.mem_of_find hmember
      have hsent := (h.proper.calls _ (List.mem_of_getElem? hcall)).sent claim batch rest rfl member hmem
      rw [hid] at hsent
      exact ⟨before, n, claim, batch, rest, member, hbefore, hop n day rfl, hcall, hmem, hid, hholder, hperiod, hsent⟩
    · exact absurd hphase (by simp [Claim.part])

/-- **A review claims only who is to be reminded.** -/
theorem claimed_right (h : Inv userId world) {n : ℕ} {byTick : Option (Millis × Date)} {config : Settings} {today : Date} {claimAt : Millis}
    {claim : Claim} {rest : List Claimed} {member : Claimed}
    (hcall : world.calls[n]? = some (.claiming (.review false byTick) config today claimAt))
    (hafter : (runClaim n (.review false byTick) config today claimAt world).calls[n]? = some (.continuing claim rest))
    (hmember : member ∈ rest) (hid : member.userId = userId) :
    ∃ row, findMember userId world.members = some row ∧
      row.expiresOn ≤ shanghaiDay world.clock ∧ row.leftAt = none ∧ userId ∉ world.settings.exemptUserIds := by
  have htoday := (h.proper.calls _ (List.mem_of_getElem? hcall)).today _ config today claimAt rfl
  have hset : (runClaim n (.review false byTick) config today claimAt world).calls[n]? =
      some (.continuing ⟨true, byTick, config.remindText, today, claimAt⟩
        ((world.members.filter (candidate world.settings.exemptUserIds today claimAt)).map claimedOf)) :=
    List.getElem?_set_self (List.getElem?_eq_some_iff.mp hcall).1
  rw [hset] at hafter
  cases hafter
  obtain ⟨row, hrow, rfl⟩ := List.mem_map.mp hmember
  obtain ⟨hmem, hwanted⟩ := List.mem_filter.mp hrow
  have hfind := Keyed.find_of_mem h.proper.rows hmem
  change row.userId = userId at hid
  simp only [candidate, Bool.and_eq_true, decide_eq_true_eq, Option.isNone_iff_eq_none, Bool.not_eq_true', List.contains_eq_mem,
    decide_eq_false_iff_not] at hwanted
  rw [hid] at hwanted hfind
  exact ⟨row, hfind, Int.le_trans hwanted.1.1.1.1 htoday, hwanted.1.1.1.2, hwanted.2⟩

/-- **One expiry, one automatic reminder**: in every run of reviews, ticks, reminders and updates whose statements keep to the claims, a
    member is named once in the texts of the reviews between two updates, and every step does to its row what it may. -/
theorem one_automatic_reminder (shanghaiHour : Millis → ℕ) (userId : String) (start world : World) (hstart : Started start)
    (hrun : Driven.Run (step shanghaiHour) (Allowed userId) start world) :
    (∀ period, (noticesOf userId world.sent).count period ≤ 1) ∧
      ∀ op, Allowed userId world op → StepRight userId world op (step shanghaiHour op world) := by
  have hinv : Inv userId world :=
    hrun.keeps (inv_started hstart) (fun before op hbefore hallowed => inv_step shanghaiHour hbefore op hallowed)
  refine ⟨hinv.notices.once, fun op hallowed => ⟨?_, ?_, ?_⟩⟩
  · intro n claim batch rest member hop hcall hreview hmember hid
    have hstep : step shanghaiHour op world = runSql n (.releasing claim batch rest) world := by
      rw [hop]
      unfold step
      dsimp only
      rw [hcall]
      rfl
    rw [hstep]
    exact released_right hinv hcall hreview hmember hid
  · exact fun row hrow hreminded hchanged => marked_right shanghaiHour hinv op hallowed row hrow hreminded hchanged
  · intro n byTick config today claimAt claim rest member hop hcall hafter hmember hid
    have hstep : step shanghaiHour op world = runClaim n (.review false byTick) config today claimAt world := by
      rw [hop]
      unfold step
      dsimp only
      rw [hcall]
      rfl
    rw [hstep] at hafter
    exact claimed_right hinv hcall hafter hmember hid

end Runs

/-! ## Two runs -/

/-- The hour in Shanghai. -/
def hourInShanghai (moment : Millis) : ℕ := ((moment + 28800000) / 3600000 % 24).toNat

def remindingSettings : Settings := ⟨true, 1, "renew", [], none⟩

/-- A member whose term has ended on the second of March 2026. -/
def expiredMember (userId : String) : Member where
  userId := userId
  displayName := userId
  startedOn := 20485
  termMonths := 1
  expiresOn := 20514

def listedMember (userId : String) : Listed := ⟨userId, userId, 1769868000, false, false⟩

/-- The third of March 2026 at ten. -/
def groupOf (userIds : List String) : World where
  members := userIds.map expiredMember
  settings := remindingSettings
  clock := 1772503200000

/-- A call of `review` or `remind` up to the answer of its claim. -/
def claimOps (n : ℕ) (userIds : List String) : List Op :=
  [.sql n, .answer n (some (userIds.map listedMember)), .sql n] ++ userIds.map (fun _ => .sql n) ++ [.sql n, .sql n]

/-- A review fails to name the member, a second one names it while a reminder fails to claim it, and a tick has nobody to name. -/
def quietOps : List Op :=
  [.review false] ++ claimOps 0 ["u"] ++ [.go 0, .sent 0 false, .sql 0, .go 0, .pass 1000, .review false] ++ claimOps 1 ["u"] ++
    [.go 1, .remind "u"] ++ claimOps 2 ["u"] ++ [.sent 1 true, .sql 1, .go 1, .tick, .sql 3] ++ claimOps 3 ["u"] ++ [.go 3, .sql 3]

theorem one_automatic_reminder_quiet :
    (noticesOf "u" (Driven.afterwards (step hourInShanghai) quietOps (groupOf ["u"])).sent).count 0 ≤ 1 :=
  (one_automatic_reminder hourInShanghai "u" (groupOf ["u"]) _ ⟨by decide, rfl, rfl⟩
    (Driven.run_afterwards quietOps _ (by decide +kernel))).1 0

/-- Twenty-one members, the last of them in a second batch. -/
def crowd : List String := (List.range 21).map (fun i => String.ofList (List.replicate (i + 1) 'u'))

def lastOfCrowd : String := String.ofList (List.replicate 21 'u')

/-- While the first batch is under way the last member gets a note, and a second review names it; then the second batch goes out. -/
def lateBatchOps : List Op :=
  [.review false] ++ claimOps 0 crowd ++ [.go 0, .updateMember lastOfCrowd ⟨20485, 1, none, some "note", none⟩, .sql 1, .review false] ++
    claimOps 2 crowd ++ [.go 2, .sent 2 true, .sql 2, .go 2, .sent 0 true, .sql 0, .go 0, .sent 0 true]

/-- **A later batch goes out from memory** and names a member that another review has named since its update. -/
theorem late_batch_names_twice :
    Started (groupOf crowd) ∧
      ¬∀ period, (noticesOf lastOfCrowd (Driven.afterwards (step hourInShanghai) lateBatchOps (groupOf crowd)).sent).count period ≤ 1 := by
  refine ⟨⟨by decide +kernel, rfl, rfl⟩, fun h => absurd (h 1) ?_⟩
  decide +kernel

end TradingHarness.Memberships
