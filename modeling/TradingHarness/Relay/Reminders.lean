import TradingHarness.Library.Notices
import TradingHarness.Relay.Memberships

set_option autoImplicit false

/-! # Reminders of a member

What the calls on a group do to one member's row, as the parties of its notices, and which of their steps keep the reminders single. -/

namespace TradingHarness.Memberships

open Notices (Phase Party State)

/-! ## A member and its calls -/

variable (userId : String) (request : Request) (today : Date) (claimAt : Millis) (world : World)

def findClaimed (members : List Claimed) : Option Claimed := Keyed.find Claimed.userId userId members

def Claim.part (claim : Claim) (phase : Phase) (member : Claimed) : Party Millis := ⟨claim.claimAt, member.updates, claim.review, phase⟩

/-- A member that a call has in its batch, or else behind it. -/
def Claim.partOf (claim : Claim) (phase : Claimed → Phase) (batch rest : List Claimed) : Option (Party Millis) :=
  ((findClaimed userId batch).map (fun member => claim.part (phase member) member)).or
    ((findClaimed userId rest).map (claim.part .waiting))

/-- What a call has of a member. -/
def Call.part : Call → Option (Party Millis)
  | .continuing claim rest => (findClaimed userId rest).map (claim.part .waiting)
  | .sending claim batch rest => claim.partOf userId (fun member => .sending member.naming) batch rest
  | .marking claim batch rest => claim.partOf userId (fun member => .recording member.naming) batch rest
  | .releasing claim batch rest => claim.partOf userId (fun _ => .releasing) batch rest
  | .clearing claimAt member => if member.userId = userId then some ⟨claimAt, member.updates, false, .waiting⟩ else none
  | _ => none

def World.partAt (n : ℕ) : Option (Party Millis) := world.calls[n]?.bind (Call.part userId)

/-- How often the member had been updated when a text of a review named it. -/
def noticesOf (sent : List Sent) : List ℕ :=
  ((sent.filter Sent.review).flatMap Sent.members).filterMap (fun entry => if entry.1 = userId then some entry.2 else none)

def viewOf (row : Option Member) (parts : ℕ → Option (Party Millis)) (noticed : List ℕ) : State Millis Date where
  stamp := row.bind Member.remindClaimedAt
  holder := row.bind Member.holder
  done := row.bind Member.remindedOn
  period := (row.map Member.updates).getD 0
  parts := parts
  noticed := noticed

/-- The reminders of a member. -/
def view : State Millis Date :=
  viewOf (findMember userId world.members) (world.partAt userId) (noticesOf userId world.sent)

/-! ## Steps that keep reminders single -/

/-- The list has the member, as a person. -/
def ListsMember (answer : List Listed) : Prop :=
  userId ∈ answer.map Listed.userId ∧ ∀ listed ∈ answer, listed.userId = userId → listed.excluded = false

/-- The claim under which a review has a text that names the member under way, or sent and not yet recorded. -/
def Call.underWay : Call → Option Millis
  | .sending claim batch _ | .marking claim batch _ =>
      if claim.review && (batch.map Claimed.userId).contains userId then some claim.claimAt else none
  | _ => none

/-- Such a text is under way under the claim that the row has. -/
def UnderWay : Prop :=
  ∃ call ∈ world.calls, (call.underWay userId).isSome ∧ (findMember userId world.members).bind Member.remindClaimedAt = call.underWay userId

instance (userId : String) (world : World) : Decidable (UnderWay userId world) :=
  inferInstanceAs (Decidable (∃ call ∈ world.calls, _ ∧ _))

/-- The claim takes the member's row. -/
def claims : Bool :=
  match request with
  | .review true _ => false
  | .review false _ => (findMember userId world.members).any (candidate world.settings.exemptUserIds today claimAt)
  | .remind id => (findMember userId world.members).any (remindable id today claimAt)

/-- What a statement may do: a claim takes no row from under a text that is under way, and its moment is no other call's claim of the
    member; no such claim is cleared; and no update of another member makes this one exempt. -/
def MayRun : Option Call → Prop
  | some (.claiming request _ today claimAt) =>
      claims userId request today claimAt world = true →
        ¬UnderWay userId world ∧ ∀ call ∈ world.calls, (call.part userId).map Party.stamp ≠ some claimAt
  | some (.clearing _ member) => member.userId = userId → ¬UnderWay userId world
  | some (.updating id _ (some exemptIds)) => id ≠ userId → userId ∈ exemptIds → userId ∈ world.settings.exemptUserIds
  | _ => True

/-- A review names a member only while the member's row has its claim. -/
def MayGo : Option Call → Prop
  | some (.continuing claim rest) =>
      claim.review = true → userId ∈ (rest.take 20).map Claimed.userId →
        (findMember userId world.members).bind Member.remindClaimedAt = some claim.claimAt
  | _ => True

def Allowed (op : Op) : Prop :=
  match op with
  | .answer _ (some answer) => ListsMember userId answer
  | .sql n => MayRun userId world world.calls[n]?
  | .go n => MayGo userId world world.calls[n]?
  | _ => True

instance (userId : String) (answer : List Listed) : Decidable (ListsMember userId answer) := inferInstanceAs (Decidable (_ ∧ _))

instance decidableMayRun (userId : String) (world : World) (call : Option Call) : Decidable (MayRun userId world call) :=
  match call with
  | some (.claiming request _ today claimAt) =>
      inferInstanceAs (Decidable (claims userId request today claimAt world = true →
        ¬UnderWay userId world ∧ ∀ call ∈ world.calls, (call.part userId).map Party.stamp ≠ some claimAt))
  | some (.clearing _ member) => inferInstanceAs (Decidable (member.userId = userId → ¬UnderWay userId world))
  | some (.updating id _ (some exemptIds)) =>
      inferInstanceAs (Decidable (id ≠ userId → userId ∈ exemptIds → userId ∈ world.settings.exemptUserIds))
  | none | some (.starting _) | some (.listing ..) | some (.reading ..) | some (.syncing ..) | some (.continuing ..) | some (.sending ..)
  | some (.marking ..) | some (.releasing ..) | some (.adjusting ..) | some (.updating _ _ none) | some (.ticking ..) | some (.recording ..)
  | some .ended => isTrue trivial

instance decidableMayGo (userId : String) (world : World) (call : Option Call) : Decidable (MayGo userId world call) :=
  match call with
  | some (.continuing claim rest) =>
      inferInstanceAs (Decidable (claim.review = true → userId ∈ (rest.take 20).map Claimed.userId →
        (findMember userId world.members).bind Member.remindClaimedAt = some claim.claimAt))
  | none | some (.starting _) | some (.listing ..) | some (.reading ..) | some (.syncing ..) | some (.claiming ..) | some (.sending ..)
  | some (.marking ..) | some (.releasing ..) | some (.clearing ..) | some (.adjusting ..) | some (.updating ..) | some (.ticking ..)
  | some (.recording ..) | some .ended => isTrue trivial

instance decidableAllowed (userId : String) (world : World) (op : Op) : Decidable (Allowed userId world op) :=
  match op with
  | .answer _ (some answer) => inferInstanceAs (Decidable (ListsMember userId answer))
  | .sql n => inferInstanceAs (Decidable (MayRun userId world world.calls[n]?))
  | .go n => inferInstanceAs (Decidable (MayGo userId world world.calls[n]?))
  | .answer _ none | .review _ | .remind _ | .updateMember .. | .tick | .pass _ | .sent .. => isTrue trivial

/-! ## Well-formed calls -/

/-- The members of a claim that a call still has. -/
def Call.members : Call → List Claimed
  | .continuing _ rest => rest
  | .sending _ batch rest | .marking _ batch rest | .releasing _ batch rest => batch ++ rest
  | _ => []

/-- The statement leaves the member's row in the group, or makes a new one. -/
def Statement.Keeps : Statement → Prop
  | .delete id | .leave id => id ≠ userId
  | .refresh _ _ => True
  | .insert row => ∃ config listed, row = newMember config listed

structure Call.Proper (userId : String) (world : World) (call : Call) : Prop where
  members : (call.members.map Claimed.userId).Nodup
  answer : ∀ request config answer, call = .reading request config answer → ListsMember userId answer
  todo : ∀ request config todo, call = .syncing request config todo → ∀ statement ∈ todo, statement.Keeps userId
  today : ∀ request config today claimAt, call = .claiming request config today claimAt → today ≤ shanghaiDay world.clock
  sent : ∀ claim batch rest, call = .marking claim batch rest →
    ∀ member ∈ batch, ∃ text ∈ world.sent, (member.userId, member.naming) ∈ text.members

/-- A row that a later review is to remind. -/
structure Due (world : World) (row : Member) : Prop where
  expired : row.expiresOn ≤ shanghaiDay world.clock
  present : row.leftAt = none
  unreminded : row.remindedOn = none
  unclaimed : row.remindClaimedAt = none
  liable : row.userId ∉ world.settings.exemptUserIds

structure Proper (userId : String) (world : World) : Prop where
  rows : (world.members.map Member.userId).Nodup
  calls : ∀ call ∈ world.calls, call.Proper userId world
  /-- A row that a call has claimed is there. -/
  present : ∀ call ∈ world.calls, (call.part userId).isSome → (findMember userId world.members).isSome
  /-- A row that a review has claimed and that was not updated since has expired, and its member is in the group and not exempt. -/
  expired : ∀ call ∈ world.calls, ∀ part, call.part userId = some part → part.counted = true → part.period = world.updates userId →
    ∀ row, findMember userId world.members = some row →
      row.expiresOn ≤ shanghaiDay world.clock ∧ row.leftAt = none ∧ userId ∉ world.settings.exemptUserIds

variable {rows : List Member} {n : ℕ} {call : Call} {claim : Claim} {phase : Claimed → Phase}
  {batch rest : List Claimed} {part : Party Millis} {after : World}

section View

variable {userId : String} {world : World}

/-! ## Rows under statements -/

theorem find_claimRows (n : ℕ) (claimAt : Millis) (wanted : Member → Bool) (rows : List Member) :
    findMember userId (claimRows n claimAt wanted rows) =
      (findMember userId rows).map (fun row => if wanted row then { row with remindClaimedAt := some claimAt, holder := some n } else row) :=
  Keyed.find_map _ (fun row => by split <;> rfl)

theorem find_settleRows (ids : List String) (claimAt : Millis) (reminded : Option Date) (rows : List Member) :
    findMember userId (settleRows ids claimAt reminded rows) =
      (findMember userId rows).map (fun row =>
        if ids.contains row.userId && row.remindClaimedAt == some claimAt then
          { row with remindedOn := reminded.or row.remindedOn, remindClaimedAt := none, holder := none }
        else row) :=
  Keyed.find_map _ (fun row => by split <;> rfl)

theorem userId_of_find {row : Member} (h : findMember userId rows = some row) : row.userId = userId :=
  (Keyed.mem_of_find h).2

theorem find_update (id : String) (change : Member → Member) (hkey : ∀ row, (change row).userId = row.userId) (rows : List Member) :
    findMember id (Keyed.update Member.userId id change rows) = (findMember id rows).map change :=
  Keyed.find_update_self change hkey

theorem find_update_ne {id : String} (hne : id ≠ userId) (change : Member → Member) (hkey : ∀ row, (change row).userId = row.userId)
    (rows : List Member) : findMember userId (Keyed.update Member.userId id change rows) = findMember userId rows :=
  Keyed.find_update_of_ne change hkey (Ne.symm hne)

theorem find_claimed (wanted : Member → Bool) (rows : List Member) (hnodup : (rows.map Member.userId).Nodup) :
    findClaimed userId ((rows.filter wanted).map claimedOf) = ((findMember userId rows).filter wanted).map claimedOf := by
  have hmap : findClaimed userId ((rows.filter wanted).map claimedOf) = (findMember userId (rows.filter wanted)).map claimedOf := by
    unfold findClaimed findMember Keyed.find
    rw [List.find?_map]
    rfl
  rw [hmap]
  exact congrArg (Option.map claimedOf) (Keyed.find_filter wanted hnodup)

theorem find_remindable (id : String) (today : Date) (claimAt : Millis) (rows : List Member) (hnodup : (rows.map Member.userId).Nodup) :
    rows.find? (remindable id today claimAt) = (findMember id rows).filter (remindable id today claimAt) := by
  have hrows := @Keyed.find_filter _ _ _ Member.userId id rows (remindable id today claimAt) hnodup
  unfold findMember
  rw [← hrows]
  unfold Keyed.find
  rw [List.find?_filter]
  congr 1
  funext row
  by_cases hid : row.userId = id
  · simp [hid]
  · simp [hid, remindable]

/-! ## Calls that move -/

section

variable (hcall : world.calls[n]? = some call)

include hcall

theorem partAt_setCall (next : Call) :
    (world.setCall n next).partAt userId = Function.update (world.partAt userId) n (next.part userId) := by
  funext m
  unfold World.partAt World.setCall
  by_cases hsame : m = n
  · subst hsame
    rw [Function.update_self, List.getElem?_set_self (List.getElem?_eq_some_iff.mp hcall).1]
    rfl
  · rw [Function.update_of_ne hsame, List.getElem?_set_ne (Ne.symm hsame)]

theorem partAt_of_call : world.partAt userId n = call.part userId := by
  unfold World.partAt
  rw [hcall]
  rfl

theorem partAt_same (next : Call) (hsame : next.part userId = call.part userId) :
    (world.setCall n next).partAt userId = world.partAt userId := by
  rw [partAt_setCall hcall, hsame, ← partAt_of_call hcall]
  exact Function.update_eq_self n _

end

theorem partAt_withCall (hquiet : call.part userId = none) : (world.withCall call).partAt userId = world.partAt userId := by
  funext m
  unfold World.partAt World.withCall
  rw [List.getElem?_append]
  split
  next => rfl
  next hlength =>
    rw [List.getElem?_eq_none (Nat.le_of_not_lt hlength), List.getElem?_singleton]
    split
    next => exact hquiet
    next => rfl

/-- What a step does to the reminders of a member. -/
def Simulates (userId : String) (world : World) (op : Op) (after : World) : Prop :=
  view userId after = view userId world ∨
    ∃ act, Notices.Allowed (view userId world) act ∧ view userId after = Notices.step act (view userId world) ∧
      ∀ n day, act = .record n day → op = .sql n

theorem view_same (hcall : world.calls[n]? = some call) (next : Call) (hsame : next.part userId = call.part userId) :
    view userId (world.setCall n next) = view userId world := by
  unfold view
  rw [partAt_same hcall _ hsame]
  rfl

theorem view_members (hcall : world.calls[n]? = some call) (next : Call)
    (hsame : next.part userId = call.part userId) (hrows : findMember userId rows = findMember userId world.members) :
    view userId { world.setCall n next with members := rows } = view userId world := by
  have hview : view userId { world.setCall n next with members := rows } =
      viewOf (findMember userId rows) ((world.setCall n next).partAt userId) (noticesOf userId world.sent) := rfl
  rw [hview, hrows, partAt_same hcall _ hsame]
  rfl

theorem find_eraseIdx_ne {id : String} (hne : id ≠ userId) :
    findMember userId (rows.filter (fun row => !(row.userId == id))) = findMember userId rows := by
  unfold findMember Keyed.find
  rw [List.find?_filter]
  congr 1
  funext row
  by_cases hrow : row.userId = userId
  · simp [hrow, Ne.symm hne]
  · simp [hrow]

theorem find_run (statement : Statement) (now : Millis) (rows : List Member) (hkeeps : statement.Keeps userId) :
    findMember userId (statement.run now rows) = findMember userId rows ∨
      (∃ row name, findMember userId rows = some row ∧
        findMember userId (statement.run now rows) = some { row with displayName := name, leftAt := none }) ∨
      (findMember userId rows = none ∧ ∃ config listed,
        findMember userId (statement.run now rows) = some (newMember config listed)) := by
  cases statement with
  | delete id => exact Or.inl (find_eraseIdx_ne hkeeps)
  | refresh id name =>
      by_cases hid : id = userId
      · subst hid
        have hupdate := find_update id (fun row => { row with displayName := name, leftAt := none }) (fun _ => rfl) rows
        rcases hrow : findMember id rows with _ | row
        · rw [hrow] at hupdate
          exact Or.inl hupdate
        · rw [hrow] at hupdate
          exact Or.inr (Or.inl ⟨row, name, rfl, hupdate⟩)
      · exact Or.inl (find_update_ne hid (fun row => { row with displayName := name, leftAt := none }) (fun _ => rfl) rows)
  | insert row =>
      obtain ⟨config, listed, hnew⟩ := hkeeps
      unfold Statement.run
      dsimp only
      split
      next => exact Or.inl rfl
      next hnone =>
        have hfresh : Keyed.find Member.userId row.userId rows = none := by simpa [findMember] using hnone
        have hconcat := @Keyed.find_concat _ _ _ Member.userId userId rows row hfresh
        by_cases hid : userId = row.userId
        · refine Or.inr (Or.inr ⟨?_, config, listed, ?_⟩)
          · rw [hid]
            exact hfresh
          · rw [← hnew]
            exact hconcat.trans (if_pos hid)
        · exact Or.inl (hconcat.trans (if_neg hid))
  | leave id => exact Or.inl (find_update_ne hkeeps (fun row => { row with leftAt := some now }) (fun _ => rfl) rows)

/-! ## What the steps do to the reminders -/

theorem sim_sync {request : Request} {config : Settings} {statement : Statement} {rest : List Statement}
    (hproper : Proper userId world) (hcall : world.calls[n]? = some (.syncing request config (statement :: rest))) :
    view userId { world.setCall n (.syncing request config rest) with members := statement.run world.clock world.members } =
      view userId world := by
  have hkeeps := (hproper.calls _ (List.mem_of_getElem? hcall)).todo request config _ rfl statement List.mem_cons_self
  rcases find_run statement world.clock world.members hkeeps with hsame | ⟨row, name, hrow, hnow⟩ | ⟨hnone, config', listed, hnow⟩
  · exact view_members hcall (.syncing request config rest) rfl hsame
  · have hview : ∀ parts noticed, viewOf (some { row with displayName := name, leftAt := none }) parts noticed =
        viewOf (some row) parts noticed := fun _ _ => rfl
    unfold view
    rw [hrow, ← hview, ← hnow, ← partAt_same hcall (.syncing request config rest) rfl]
    rfl
  · have hview : ∀ parts noticed, viewOf (some (newMember config' listed)) parts noticed = viewOf none parts noticed := fun _ _ => rfl
    unfold view
    rw [hnone, ← hview, ← hnow, ← partAt_same hcall (.syncing request config rest) rfl]
    rfl

theorem partOf_cases (h : claim.partOf userId phase batch rest = some part) :
    (∃ member, findClaimed userId batch = some member ∧ part = claim.part (phase member) member) ∨
      (findClaimed userId batch = none ∧ ∃ member, findClaimed userId rest = some member ∧ part = claim.part .waiting member) := by
  unfold Claim.partOf at h
  rcases hbatch : findClaimed userId batch with _ | member
  · rw [hbatch, Option.map_none, Option.none_or] at h
    obtain ⟨member, hmember, rfl⟩ := Option.map_eq_some_iff.mp h
    exact Or.inr ⟨rfl, member, hmember, rfl⟩
  · rw [hbatch] at h
    cases h
    exact Or.inl ⟨member, rfl, rfl⟩

/-- A call whose notice is sent or recorded has the member in its batch. -/
theorem part_cases (h : call.part userId = some part) :
    part.phase = .waiting ∨
      (∃ claim batch rest member, call = .sending claim batch rest ∧ findClaimed userId batch = some member ∧
        part = claim.part (.sending member.naming) member) ∨
      (∃ claim batch rest member, call = .marking claim batch rest ∧ findClaimed userId batch = some member ∧
        part = claim.part (.recording member.naming) member) ∨
      (∃ claim batch rest member, call = .releasing claim batch rest ∧ findClaimed userId batch = some member ∧
        part = claim.part .releasing member) := by
  cases call with
  | continuing claim rest =>
      obtain ⟨member, -, rfl⟩ := Option.map_eq_some_iff.mp h
      exact Or.inl rfl
  | sending claim batch rest =>
      rcases partOf_cases h with ⟨member, hmember, hpart⟩ | ⟨-, member, -, rfl⟩
      · exact Or.inr (Or.inl ⟨claim, batch, rest, member, rfl, hmember, hpart⟩)
      · exact Or.inl rfl
  | marking claim batch rest =>
      rcases partOf_cases h with ⟨member, hmember, hpart⟩ | ⟨-, member, -, rfl⟩
      · exact Or.inr (Or.inr (Or.inl ⟨claim, batch, rest, member, rfl, hmember, hpart⟩))
      · exact Or.inl rfl
  | releasing claim batch rest =>
      rcases partOf_cases h with ⟨member, hmember, hpart⟩ | ⟨-, member, -, rfl⟩
      · exact Or.inr (Or.inr (Or.inr ⟨claim, batch, rest, member, rfl, hmember, hpart⟩))
      · exact Or.inl rfl
  | clearing claimAt member =>
      simp only [Call.part] at h
      split at h
      next =>
        cases h
        exact Or.inl rfl
      next => exact absurd h (by simp)
  | _ => exact absurd h (by simp [Call.part])

theorem underWay_of_batch {member : Claimed} (hreview : claim.review = true)
    (hmember : findClaimed userId batch = some member) : (claim.review && (batch.map Claimed.userId).contains userId) = true := by
  obtain ⟨hmem, hid⟩ := Keyed.mem_of_find hmember
  have hin : userId ∈ batch.map Claimed.userId := List.mem_map.mpr ⟨member, hmem, hid⟩
  simp [hreview, hin]

theorem underWay_of_view (h : Notices.UnderWay (view userId world)) : UnderWay userId world := by
  obtain ⟨n, part, sent, hpart, hcounted, hphase, hstamp⟩ := h
  have hpart' : world.calls[n]?.bind (Call.part userId) = some part := hpart
  obtain ⟨call, hcall, hof⟩ := Option.bind_eq_some_iff.mp hpart'
  have hrow : (findMember userId world.members).bind Member.remindClaimedAt = some part.stamp := hstamp
  refine ⟨call, List.mem_of_getElem? hcall, ?_⟩
  rw [hrow]
  rcases part_cases hof with hwaiting | ⟨claim, batch, rest, member, rfl, hmember, rfl⟩ | ⟨claim, batch, rest, member, rfl, hmember, rfl⟩ |
    ⟨claim, batch, rest, member, rfl, hmember, rfl⟩
  · rw [hwaiting] at hphase
    exact absurd hphase (by simp)
  · have hnamed : Call.underWay userId (.sending claim batch rest) = some claim.claimAt := if_pos (underWay_of_batch hcounted hmember)
    rw [hnamed]
    exact ⟨rfl, rfl⟩
  · have hnamed : Call.underWay userId (.marking claim batch rest) = some claim.claimAt := if_pos (underWay_of_batch hcounted hmember)
    rw [hnamed]
    exact ⟨rfl, rfl⟩
  · exact absurd hphase (by simp [Claim.part])

theorem stamp_of_view {claimAt : Millis} (hnew : ∀ call ∈ world.calls, (call.part userId).map Party.stamp ≠ some claimAt) (n : ℕ)
    (part : Party Millis) (hpart : (view userId world).parts n = some part) : part.stamp ≠ claimAt := by
  intro hsame
  have hpart' : world.calls[n]?.bind (Call.part userId) = some part := hpart
  obtain ⟨call, hcall, hof⟩ := Option.bind_eq_some_iff.mp hpart'
  refine hnew call (List.mem_of_getElem? hcall) ?_
  rw [hof, ← hsame]
  rfl

/-- **A claim** that takes the member's row, or leaves it. -/
theorem sim_claimRows {op : Op} {next : Call} (hcall : world.calls[n]? = some call) (hquiet : call.part userId = none)
    {wanted : Member → Bool} {claimAt : Millis} (counted : Bool)
    (hnext : next.part userId = ((findMember userId world.members).filter wanted).map (fun row => ⟨claimAt, row.updates, counted, .waiting⟩))
    (hmay : (findMember userId world.members).any wanted = true →
      ¬UnderWay userId world ∧ ∀ call ∈ world.calls, (call.part userId).map Party.stamp ≠ some claimAt)
    (hdone : counted = true → ∀ row, wanted row = true → row.remindedOn = none) :
    Simulates userId world op { world.setCall n next with members := claimRows n claimAt wanted world.members } := by
  have hview : view userId { world.setCall n next with members := claimRows n claimAt wanted world.members } =
      viewOf (findMember userId (claimRows n claimAt wanted world.members)) ((world.setCall n next).partAt userId)
        (noticesOf userId world.sent) := rfl
  rw [find_claimRows, partAt_setCall hcall, hnext] at hview
  rcases hrow : findMember userId world.members with _ | row
  · rw [hrow] at hview
    left
    rw [hview]
    unfold view
    rw [hrow]
    congr 1
    rw [Option.filter_none, Option.map_none, ← hquiet, ← partAt_of_call hcall]
    exact Function.update_eq_self n _
  · rw [hrow] at hview hmay
    by_cases hwanted : wanted row = true
    · obtain ⟨hfree, hnew⟩ := hmay (by simpa using hwanted)
      refine Or.inr ⟨.claim n claimAt counted, ⟨?_, fun hcounted => ?_, fun hunder => hfree (underWay_of_view hunder),
        stamp_of_view hnew⟩, ?_, fun _ _ hno => absurd hno (by simp)⟩
      · exact (partAt_of_call hcall).trans hquiet
      · change (findMember userId world.members).bind Member.remindedOn = none
        rw [hrow]
        exact hdone hcounted row hwanted
      · rw [hview]
        unfold view
        rw [hrow, Option.map_some, if_pos hwanted, Option.filter_some_pos hwanted]
        rfl
    · left
      rw [hview, Option.map_some, if_neg hwanted, Option.filter_some_neg (by simpa using hwanted), Option.map_none]
      unfold view
      rw [hrow]
      congr 1
      rw [← hquiet, ← partAt_of_call hcall]
      exact Function.update_eq_self n _

theorem sim_claim {op : Op} {request : Request} {config : Settings} {today : Date} {claimAt : Millis}
    (hproper : Proper userId world) (hcall : world.calls[n]? = some (.claiming request config today claimAt))
    (hmay : claims userId request today claimAt world = true →
      ¬UnderWay userId world ∧ ∀ call ∈ world.calls, (call.part userId).map Party.stamp ≠ some claimAt) :
    Simulates userId world op (runClaim n request config today claimAt world) := by
  cases request with
  | review dryRun byTick =>
      cases dryRun with
      | true => exact Or.inl (view_same hcall _ rfl)
      | false =>
          refine sim_claimRows hcall rfl true ?_ hmay (fun _ row hwanted => ?_)
          · unfold Call.part
            dsimp only
            rw [find_claimed _ _ hproper.rows, Option.map_map]
            rfl
          · simp only [candidate, Bool.and_eq_true, Option.isNone_iff_eq_none] at hwanted
            exact hwanted.1.1.2
  | remind id =>
      unfold runClaim
      dsimp only
      rw [find_remindable id today claimAt world.members hproper.rows]
      rcases hwanted : (findMember id world.members).filter (remindable id today claimAt) with _ | row
      · exact Or.inl (view_same hcall _ rfl)
      · obtain ⟨hfind, -⟩ := Option.filter_eq_some_iff.mp hwanted
        have hid := userId_of_find hfind
        refine sim_claimRows hcall rfl false ?_ hmay (fun hno => absurd hno (by simp))
        by_cases hsame : id = userId
        · subst hsame
          rw [hwanted]
          split
          next => exact if_pos hid
          next => simp [Call.part, findClaimed, Keyed.find, claimedOf, hid, Claim.part]
        · have hnone : (findMember userId world.members).filter (remindable id today claimAt) = none := by
            rw [Option.filter_eq_none_iff]
            intro other hother
            have hother' := userId_of_find hother
            simp [remindable, hother', Ne.symm hsame]
          have hne : row.userId ≠ userId := fun heq => hsame (hid.symm.trans heq)
          rw [hnone]
          split
          next => exact if_neg hne
          next => simp [Call.part, findClaimed, Keyed.find, claimedOf, hne]

theorem rest_of_batch {member : Claimed} (hnodup : ((batch ++ rest).map Claimed.userId).Nodup)
    (hbatch : findClaimed userId batch = some member) : findClaimed userId rest = none := by
  obtain ⟨hmem, hid⟩ := Keyed.mem_of_find hbatch
  rw [List.map_append, List.nodup_append] at hnodup
  exact Keyed.find_eq_none.mpr (fun hin => hnodup.2.2 _ (List.mem_map.mpr ⟨member, hmem, hid⟩) _ hin rfl)

/-- **A statement behind a send** settles the member's row, or leaves it. -/
theorem sim_settle {op : Op}     (hcall : world.calls[n]? = some call) (hpart : call.part userId = claim.partOf userId phase batch rest)
    (hnodup : ((batch ++ rest).map Claimed.userId).Nodup) (reminded : Option Date) (act : Notices.Act Millis Date)
    (hstep : ∀ member, (view userId world).parts n = some (claim.part (phase member) member) →
      Notices.step act (view userId world) =
        if (view userId world).stamp = some claim.claimAt then
          { ((view userId world).put n none).free with done := reminded.or (view userId world).done }
        else (view userId world).put n none)
    (hallowed : Notices.Allowed (view userId world) act) (hop : ∀ m day, act = .record m day → op = .sql m) :
    Simulates userId world op
      { world.setCall n (.continuing claim rest) with
        members := settleRows (batch.map Claimed.userId) claim.claimAt reminded world.members } := by
  have hview : view userId { world.setCall n (.continuing claim rest) with
        members := settleRows (batch.map Claimed.userId) claim.claimAt reminded world.members } =
      viewOf (findMember userId (settleRows (batch.map Claimed.userId) claim.claimAt reminded world.members))
        ((world.setCall n (.continuing claim rest)).partAt userId) (noticesOf userId world.sent) := rfl
  rw [find_settleRows] at hview
  rcases hbatch : findClaimed userId batch with _ | member
  · -- the batch has not the member
    left
    have hnot : userId ∉ batch.map Claimed.userId := Keyed.find_eq_none.mp hbatch
    have hsame : (Call.continuing claim rest).part userId = call.part userId := by
      rw [hpart]
      unfold Claim.partOf
      rw [hbatch]
      rfl
    rw [partAt_same hcall _ hsame] at hview
    rw [hview]
    unfold view
    congr 1
    rcases hrow : findMember userId world.members with _ | row
    · rfl
    · rw [Option.map_some, userId_of_find hrow, if_neg (by simp [hnot])]
  · right
    have hfirst : call.part userId = some (claim.part (phase member) member) := by
      rw [hpart]
      unfold Claim.partOf
      rw [hbatch]
      rfl
    have hrest : (Call.continuing claim rest).part userId = none := by
      unfold Call.part
      dsimp only
      rw [rest_of_batch hnodup hbatch]
      rfl
    have hin : userId ∈ batch.map Claimed.userId := by
      obtain ⟨hmem, hid⟩ := Keyed.mem_of_find hbatch
      exact List.mem_map.mpr ⟨member, hmem, hid⟩
    refine ⟨act, hallowed, ?_, hop⟩
    rw [hstep member ((partAt_of_call hcall).trans hfirst), hview, partAt_setCall hcall, hrest]
    unfold view
    rcases hrow : findMember userId world.members with _ | row
    · rw [if_neg (by simp [viewOf])]
      rfl
    · by_cases hclaimed : row.remindClaimedAt = some claim.claimAt
      · rw [Option.map_some, userId_of_find hrow, if_pos (by simp [hin, hclaimed])]
        exact (if_pos hclaimed).symm
      · rw [Option.map_some, userId_of_find hrow, if_neg (by simp [hclaimed])]
        exact (if_neg hclaimed).symm

theorem sim_clear {op : Op} {claimAt : Millis} {member : Claimed} (hcall : world.calls[n]? = some (.clearing claimAt member))
    (hmay : member.userId = userId → ¬UnderWay userId world) :
    Simulates userId world op
      { world.setCall n .ended with
        members := Keyed.update Member.userId member.userId (fun row => { row with remindClaimedAt := none, holder := none }) world.members } := by
  by_cases hid : member.userId = userId
  · have hpart : (view userId world).parts n = some ⟨claimAt, member.updates, false, .waiting⟩ :=
      (partAt_of_call hcall).trans (if_pos hid)
    refine Or.inr ⟨.clear n, ⟨fun hunder => hmay hid (underWay_of_view hunder), fun part hother => ?_⟩, ?_, fun _ _ hno => absurd hno (by simp)⟩
    · rw [hpart] at hother
      cases hother
      rfl
    · have hrows := find_update userId (fun row => { row with remindClaimedAt := none, holder := none }) (fun _ => rfl) world.members
      have hview : view userId { world.setCall n .ended with
            members := Keyed.update Member.userId member.userId (fun row => { row with remindClaimedAt := none, holder := none })
              world.members } =
          viewOf (findMember userId (Keyed.update Member.userId userId (fun row => { row with remindClaimedAt := none, holder := none })
            world.members)) ((world.setCall n .ended).partAt userId) (noticesOf userId world.sent) := by
        rw [hid]
        rfl
      rw [hview, partAt_setCall hcall, hrows]
      unfold view
      rcases findMember userId world.members with _ | row <;> rfl
  · have hrows := find_update_ne hid (fun row => { row with remindClaimedAt := none, holder := none }) (fun _ => rfl) world.members
    exact Or.inl (view_members hcall .ended (if_neg hid).symm hrows)

theorem sim_update {op : Op} {id : String} {body : Body} {exemptIds : Option (List String)}
    (hcall : world.calls[n]? = some (.updating id body exemptIds)) : Simulates userId world op (runUpdate n id body exemptIds world) := by
  unfold runUpdate
  split
  next hsome =>
    by_cases hid : id = userId
    · subst hid
      refine Or.inr ⟨.renew, trivial, ?_, fun _ _ hno => absurd hno (by simp)⟩
      obtain ⟨row, hrow⟩ := Option.isSome_iff_exists.mp hsome
      have hrows := find_update id (updateRow body) (fun _ => rfl) world.members
      have hview : view id { world.setCall n .ended with
            members := Keyed.update Member.userId id (updateRow body) world.members
            settings := { world.settings with exemptUserIds := exemptIds.getD world.settings.exemptUserIds } } =
          viewOf (findMember id (Keyed.update Member.userId id (updateRow body) world.members)) ((world.setCall n .ended).partAt id)
            (noticesOf id world.sent) := rfl
      rw [hview, hrows, hrow, partAt_same hcall .ended rfl]
      unfold view
      rw [hrow]
      rfl
    · left
      exact view_members hcall .ended rfl (find_update_ne hid (updateRow body) (fun _ => rfl) world.members)
  next => exact Or.inl (view_same hcall _ rfl)

theorem find_batch (world : World) (batch : List Claimed) :
    findClaimed userId (batch.map (fun member => { member with naming := world.updates member.userId })) =
      (findClaimed userId batch).map (fun member => { member with naming := world.updates member.userId }) :=
  Keyed.find_map _ (fun _ => rfl)

theorem find_take_drop (userId : String) (rest : List Claimed) :
    findClaimed userId rest = (findClaimed userId (rest.take 20)).or (findClaimed userId (rest.drop 20)) := by
  unfold findClaimed Keyed.find
  rw [← List.find?_append, List.take_append_drop]

theorem sim_go {op : Op} (hcall : world.calls[n]? = some (.continuing claim rest))
    (hmay : claim.review = true → userId ∈ (rest.take 20).map Claimed.userId →
      (findMember userId world.members).bind Member.remindClaimedAt = some claim.claimAt) :
    Simulates userId world op (goOn n claim rest world) := by
  unfold goOn
  split
  next hempty =>
    rw [List.isEmpty_iff] at hempty
    subst hempty
    split
    next => exact Or.inl (view_same hcall _ rfl)
    next => exact Or.inl (view_same hcall _ rfl)
  next =>
    have hsplit := find_take_drop userId rest
    have hnext : (Call.sending claim ((rest.take 20).map (fun member => { member with naming := world.updates member.userId }))
        (rest.drop 20)).part userId =
          claim.partOf userId (fun member => .sending member.naming)
            ((rest.take 20).map (fun member => { member with naming := world.updates member.userId })) (rest.drop 20) := rfl
    unfold Claim.partOf at hnext
    rw [find_batch, Option.map_map] at hnext
    have hbefore : (Call.continuing claim rest).part userId = (findClaimed userId rest).map (claim.part .waiting) := rfl
    rw [hsplit] at hbefore
    rcases hbatch : findClaimed userId (rest.take 20) with _ | member
    · -- the member is not in this batch
      left
      rw [hbatch, Option.none_or] at hbefore
      rw [hbatch, Option.map_none, Option.none_or] at hnext
      exact view_same hcall _ (hnext.trans hbefore.symm)
    · right
      obtain ⟨hmem, hid⟩ := Keyed.mem_of_find hbatch
      rw [hbatch, Option.some_or, Option.map_some] at hbefore
      rw [hbatch, Option.map_some, Option.some_or] at hnext
      have hpart : (view userId world).parts n = some (claim.part .waiting member) := (partAt_of_call hcall).trans hbefore
      refine ⟨.start n, fun part hpart' hcounted => ?_, ?_, fun _ _ hno => absurd hno (by simp)⟩
      · rw [hpart] at hpart'
        cases hpart'
        exact hmay hcounted (List.mem_map.mpr ⟨member, hmem, hid⟩)
      · have hview : view userId (world.setCall n (.sending claim
              ((rest.take 20).map (fun member => { member with naming := world.updates member.userId })) (rest.drop 20))) =
            viewOf (findMember userId world.members) ((world.setCall n (.sending claim
              ((rest.take 20).map (fun member => { member with naming := world.updates member.userId })) (rest.drop 20))).partAt userId)
              (noticesOf userId world.sent) := rfl
        rw [hview, partAt_setCall hcall, hnext]
        unfold Notices.step
        dsimp only
        rw [hpart]
        unfold Claim.part
        dsimp only [Function.comp_apply]
        rw [hid]
        rfl

/-! ## Texts that have gone out -/

theorem noticesOf_concat (sent : List Sent) (text : Sent) :
    noticesOf userId (sent ++ [text]) =
      noticesOf userId sent ++
        if text.review then text.members.filterMap (fun entry => if entry.1 = userId then some entry.2 else none) else [] := by
  unfold noticesOf
  rw [List.filter_append, List.flatMap_append, List.filterMap_append]
  congr 1
  by_cases hreview : text.review = true
  · rw [if_pos hreview]
    simp [hreview]
  · rw [if_neg hreview]
    simp [hreview]

theorem named_of_batch (userId : String) (batch : List Claimed) (hnodup : (batch.map Claimed.userId).Nodup) :
    (batch.map (fun member => (member.userId, member.naming))).filterMap (fun entry => if entry.1 = userId then some entry.2 else none) =
      ((findClaimed userId batch).map Claimed.naming).toList := by
  induction batch with
  | nil => rfl
  | cons member rest ih =>
      rw [List.map_cons, List.nodup_cons] at hnodup
      have ih := ih hnodup.2
      rw [List.map_cons, List.filterMap_cons, ih]
      by_cases hid : member.userId = userId
      · have hnone : findClaimed userId rest = none := by
          refine Keyed.find_eq_none.mpr ?_
          rw [← hid]
          exact hnodup.1
        rw [hnone]
        simp [findClaimed, Keyed.find, hid]
      · simp [findClaimed, Keyed.find, hid]

theorem sim_sent {op : Op} (hcall : world.calls[n]? = some (.sending claim batch rest))
    (hnodup : ((batch ++ rest).map Claimed.userId).Nodup) (ok : Bool) : Simulates userId world op (endSend n claim batch rest ok world) := by
  have hbefore : (Call.sending claim batch rest).part userId = claim.partOf userId (fun member => .sending member.naming) batch rest := rfl
  have hmarking : (Call.marking claim batch rest).part userId = claim.partOf userId (fun member => .recording member.naming) batch rest := rfl
  have hreleasing : (Call.releasing claim batch rest).part userId = claim.partOf userId (fun _ => .releasing) batch rest := rfl
  unfold Claim.partOf at hbefore hmarking hreleasing
  rw [List.map_append, List.nodup_append] at hnodup
  have hnamed := named_of_batch userId batch hnodup.1
  unfold endSend
  rcases hbatch : findClaimed userId batch with _ | member
  · rw [hbatch, Option.map_none, Option.none_or] at hbefore hmarking hreleasing
    rw [hbatch] at hnamed
    left
    split
    next =>
      have hview : view userId { world.setCall n (.marking claim batch rest) with
            sent := world.sent ++
              [⟨claim.review, reminderText batch claim.remindText, batch.map (fun member => (member.userId, member.naming))⟩] } =
          viewOf (findMember userId world.members) ((world.setCall n (.marking claim batch rest)).partAt userId)
            (noticesOf userId (world.sent ++
              [⟨claim.review, reminderText batch claim.remindText, batch.map (fun member => (member.userId, member.naming))⟩])) := rfl
      rw [hview, partAt_same hcall _ (hmarking.trans hbefore.symm), noticesOf_concat, hnamed]
      unfold view
      congr 1
      simp
    next => exact view_same hcall _ (hreleasing.trans hbefore.symm)
  · rw [hbatch, Option.map_some, Option.some_or] at hbefore hmarking hreleasing
    rw [hbatch] at hnamed
    have hpart : (view userId world).parts n = some (claim.part (.sending member.naming) member) := (partAt_of_call hcall).trans hbefore
    right
    split
    next =>
      refine ⟨.succeed n, trivial, ?_, fun _ _ hno => absurd hno (by simp)⟩
      have hview : view userId { world.setCall n (.marking claim batch rest) with
            sent := world.sent ++
              [⟨claim.review, reminderText batch claim.remindText, batch.map (fun member => (member.userId, member.naming))⟩] } =
          viewOf (findMember userId world.members) ((world.setCall n (.marking claim batch rest)).partAt userId)
            (noticesOf userId (world.sent ++
              [⟨claim.review, reminderText batch claim.remindText, batch.map (fun member => (member.userId, member.naming))⟩])) := rfl
      rw [hview, partAt_setCall hcall, hmarking, noticesOf_concat, hnamed]
      unfold Notices.step
      dsimp only
      rw [hpart]
      cases hreview : claim.review with
      | true => simp [Claim.part, hreview, view, viewOf, Notices.State.put]
      | false => simp [Claim.part, hreview, view, viewOf, Notices.State.put]
    next =>
      refine ⟨.fail n, trivial, ?_, fun _ _ hno => absurd hno (by simp)⟩
      have hview : view userId (world.setCall n (.releasing claim batch rest)) =
          viewOf (findMember userId world.members) ((world.setCall n (.releasing claim batch rest)).partAt userId)
            (noticesOf userId world.sent) := rfl
      rw [hview, partAt_setCall hcall, hreleasing]
      unfold Notices.step
      dsimp only
      rw [hpart]
      rfl

theorem view_withCall (call : Call) (hquiet : call.part userId = none) : view userId (world.withCall call) = view userId world := by
  unfold view
  rw [partAt_withCall hquiet]
  rfl

/-- **Every statement does to the reminders what a party may do**, or nothing. -/
theorem sim_sql (hproper : Proper userId world) (hcall : world.calls[n]? = some call)
    (hmay : MayRun userId world (some call)) : Simulates userId world (.sql n) (runSql n call world) := by
  have hmembers := (hproper.calls _ (List.mem_of_getElem? hcall)).members
  cases call with
  | starting request => exact Or.inl (view_same hcall _ rfl)
  | reading request config answer => exact Or.inl (view_same hcall _ rfl)
  | syncing request config todo =>
      cases todo with
      | nil => exact Or.inl (view_same hcall _ rfl)
      | cons statement rest => exact Or.inl (sim_sync hproper hcall)
  | claiming request config today claimAt => exact sim_claim hproper hcall hmay
  | marking claim batch rest =>
      refine sim_settle hcall rfl hmembers (some claim.today) (.record n claim.today) (fun member hpart => ?_) trivial (fun m day hact => ?_)
      · unfold Notices.step
        dsimp only
        rw [hpart]
        rfl
      · cases hact
        rfl
  | releasing claim batch rest =>
      refine sim_settle hcall rfl hmembers none (.release n) (fun member hpart => ?_) trivial (fun m day hact => absurd hact (by simp))
      unfold Notices.step
      dsimp only
      rw [hpart]
      rfl
  | clearing claimAt member => exact sim_clear hcall hmay
  | adjusting id body exempt => exact Or.inl (view_same hcall _ rfl)
  | updating id body exemptIds => exact sim_update hcall
  | ticking current today =>
      left
      unfold runSql
      dsimp only
      split
      next => exact view_same hcall _ rfl
      next => exact view_same hcall .ended rfl
  | recording current today => exact Or.inl (view_same hcall .ended rfl)
  | _ => exact Or.inl rfl

theorem sim_step (shanghaiHour : Millis → ℕ) (hproper : Proper userId world) (op : Op) (hallowed : Allowed userId world op) :
    Simulates userId world op (step shanghaiHour op world) := by
  cases op with
  | review dryRun => exact Or.inl (view_withCall _ rfl)
  | remind id => exact Or.inl (view_withCall _ rfl)
  | updateMember id body =>
      left
      unfold step updateMember
      dsimp only
      split
      next => rfl
      next =>
        split
        next => exact view_withCall _ rfl
        next => exact view_withCall _ rfl
  | tick =>
      left
      unfold step tick
      dsimp only
      split
      next => rfl
      next =>
        split
        next => rfl
        next =>
          have hquiet : (Call.ticking world.clock (shanghaiDay world.clock)).part userId = none := rfl
          exact @view_withCall userId world _ hquiet
  | pass millis => exact Or.inl rfl
  | sql n =>
      unfold step
      unfold Allowed at hallowed
      dsimp only at hallowed ⊢
      rcases hcall : world.calls[n]? with _ | call
      · exact Or.inl rfl
      · rw [hcall] at hallowed
        exact sim_sql hproper hcall hallowed
  | answer n answer =>
      left
      unfold step
      dsimp only
      split
      next hcall =>
        cases answer with
        | none =>
            change view userId (failListing n _ world) = _
            unfold failListing
            split
            next => exact view_same hcall .ended rfl
            next => exact view_same hcall _ rfl
        | some listed => exact view_same hcall _ rfl
      next => rfl
  | go n =>
      unfold step
      unfold Allowed at hallowed
      dsimp only at hallowed ⊢
      split
      next hcall =>
        rw [hcall] at hallowed
        exact sim_go hcall hallowed
      next => exact Or.inl rfl
  | sent n ok =>
      unfold step
      dsimp only
      split
      next hcall => exact sim_sent hcall (hproper.calls _ (List.mem_of_getElem? hcall)).members ok
      next => exact Or.inl rfl

/-! ## What the calls know stays true -/

theorem shanghaiDay_mono {first second : Millis} (h : first ≤ second) : shanghaiDay first ≤ shanghaiDay second := by
  unfold shanghaiDay shanghaiDate
  exact Int.ediv_le_ediv (by decide) (Int.add_le_add_right (Int.mul_le_mul_of_nonneg_right h (by decide)) _)

/-- The member's row stays, and keeps its term unless the member is updated. -/
structure Kept (userId : String) (world after : World) : Prop where
  present : (findMember userId world.members).isSome → (findMember userId after.members).isSome
  row : ∀ now, findMember userId after.members = some now → (findMember userId world.members).isSome →
    world.updates userId < after.updates userId ∨
      ((∃ row, findMember userId world.members = some row ∧ now.updates = row.updates ∧ now.expiresOn = row.expiresOn ∧
          (row.leftAt = none → now.leftAt = none)) ∧
        (userId ∈ after.settings.exemptUserIds → userId ∈ world.settings.exemptUserIds))

/-- A call has of the member what another had. -/
def Inherited (userId : String) (world : World) (part : Party Millis) : Prop :=
  ∃ call ∈ world.calls, ∃ old, call.part userId = some old ∧ old.counted = part.counted ∧ old.period = part.period

/-- A call has claimed the member's row, a review one that has expired. -/
def Fresh (userId : String) (world : World) (part : Party Millis) : Prop :=
  (findMember userId world.members).isSome ∧
    (part.counted = true → ∀ row, findMember userId world.members = some row →
      row.expiresOn ≤ shanghaiDay world.clock ∧ row.leftAt = none ∧ userId ∉ world.settings.exemptUserIds)

theorem Call.Proper.later (h : call.Proper userId world) (hclock : world.clock ≤ after.clock)
    (hsent : ∀ text ∈ world.sent, text ∈ after.sent) : call.Proper userId after where
  members := h.members
  answer := h.answer
  todo := h.todo
  today request config today claimAt hcall := Int.le_trans (h.today request config today claimAt hcall) (shanghaiDay_mono hclock)
  sent claim batch rest hcall member hmember := by
    obtain ⟨text, htext, hnamed⟩ := h.sent claim batch rest hcall member hmember
    exact ⟨text, hsent text htext, hnamed⟩

theorem updates_of_find {row : Member} (hrow : findMember userId world.members = some row) : world.updates userId = row.updates := by
  unfold World.updates
  rw [hrow]
  rfl

/-- What an old call knows stays true. -/
theorem Proper.expired_later (h : Proper userId world)
    (hperiod : ∀ call ∈ world.calls, ∀ part, call.part userId = some part → part.period ≤ world.updates userId)
    (hclock : world.clock ≤ after.clock) (hkept : Kept userId world after) (hinherited : Inherited userId world part) :
    (findMember userId after.members).isSome ∧
      (part.counted = true → part.period = after.updates userId → ∀ row, findMember userId after.members = some row →
        row.expiresOn ≤ shanghaiDay after.clock ∧ row.leftAt = none ∧ userId ∉ after.settings.exemptUserIds) := by
  obtain ⟨call, hcall, old, hold, hcounted, hsame⟩ := hinherited
  have hpresent := h.present call hcall (by rw [hold]; rfl)
  refine ⟨hkept.present hpresent, fun hcount hnow now hafter => ?_⟩
  rcases hkept.row now hafter hpresent with hlater | ⟨⟨row, hrow, hupdates, hexpires, hleft⟩, hexempt⟩
  · have hle := hperiod call hcall old hold
    omega
  · have hthen : old.period = world.updates userId := by
      rw [hsame, hnow, updates_of_find hafter, updates_of_find hrow, hupdates]
    obtain ⟨hexpired, hin, hliable⟩ := h.expired call hcall old hold (hcounted.trans hcount) hthen row hrow
    rw [hexpires]
    exact ⟨Int.le_trans hexpired (shanghaiDay_mono hclock), hleft hin, fun hno => hliable (hexempt hno)⟩

/-- A step that moves one call, or begins one, and keeps the row keeps what the calls know. -/
theorem Proper.move (h : Proper userId world)
    (hperiod : ∀ call ∈ world.calls, ∀ part, call.part userId = some part → part.period ≤ world.updates userId) {next : Call}
    (hcalls : ∀ call ∈ after.calls, call ∈ world.calls ∨ call = next) (hrows : (after.members.map Member.userId).Nodup)
    (hclock : world.clock ≤ after.clock) (hsent : ∀ text ∈ world.sent, text ∈ after.sent) (hkept : Kept userId world after)
    (hnext : next.Proper userId after)
    (hpart : ∀ part, next.part userId = some part → Inherited userId world part ∨ Fresh userId after part) : Proper userId after where
  rows := hrows
  calls call hcall := by
    rcases hcalls call hcall with hold | rfl
    · exact (h.calls call hold).later hclock hsent
    · exact hnext
  present call hcall hsome := by
    obtain ⟨part, hof⟩ := Option.isSome_iff_exists.mp hsome
    rcases hcalls call hcall with hold | rfl
    · exact (h.expired_later hperiod hclock hkept ⟨call, hold, part, hof, rfl, rfl⟩).1
    · rcases hpart part hof with hinherited | hfresh
      · exact (h.expired_later hperiod hclock hkept hinherited).1
      · exact hfresh.1
  expired call hcall part hof hcounted hnow := by
    rcases hcalls call hcall with hold | rfl
    · exact (h.expired_later hperiod hclock hkept ⟨call, hold, part, hof, rfl, rfl⟩).2 hcounted hnow
    · rcases hpart part hof with hinherited | hfresh
      · exact (h.expired_later hperiod hclock hkept hinherited).2 hcounted hnow
      · exact hfresh.2 hcounted

theorem kept_of_rows (hrows : findMember userId after.members = findMember userId world.members)
    (hexempt : userId ∈ after.settings.exemptUserIds → userId ∈ world.settings.exemptUserIds) : Kept userId world after where
  present hsome := by
    rw [hrows]
    exact hsome
  row now hnow _ := by
    rw [hrows] at hnow
    exact Or.inr ⟨⟨now, hnow, rfl, rfl, fun hleft => hleft⟩, hexempt⟩

theorem kept_of_map {change : Member → Member}
    (hrows : findMember userId after.members = (findMember userId world.members).map change)
    (hchange : ∀ row, (change row).updates = row.updates ∧ (change row).expiresOn = row.expiresOn ∧ (row.leftAt = none → (change row).leftAt = none))
    (hexempt : userId ∈ after.settings.exemptUserIds → userId ∈ world.settings.exemptUserIds) : Kept userId world after where
  present hsome := by
    rw [hrows, Option.isSome_map]
    exact hsome
  row now hnow _ := by
    rw [hrows] at hnow
    obtain ⟨row, hrow, rfl⟩ := Option.map_eq_some_iff.mp hnow
    obtain ⟨hupdates, hexpires, hleft⟩ := hchange row
    exact Or.inr ⟨⟨row, hrow, hupdates, hexpires, hleft⟩, hexempt⟩

/-- A call that has no members, waits for no list and no statement. -/
theorem proper_idle (hmembers : call.members = [])
    (hidle : (∀ request config answer, call ≠ .reading request config answer) ∧
      (∀ request config todo, call ≠ .syncing request config todo) ∧
      (∀ request config today claimAt, call ≠ .claiming request config today claimAt) ∧
      ∀ claim batch rest, call ≠ .marking claim batch rest) : call.Proper userId world where
  members := by
    rw [hmembers]
    exact List.nodup_nil
  answer request config answer hcall := absurd hcall (hidle.1 request config answer)
  todo request config todo hcall := absurd hcall (hidle.2.1 request config todo)
  today request config today claimAt hcall := absurd hcall (hidle.2.2.1 request config today claimAt)
  sent claim batch rest hcall := absurd hcall (hidle.2.2.2 claim batch rest)

theorem proper_holding (hnodup : (call.members.map Claimed.userId).Nodup)
    (hcall : (∃ claim rest, call = .continuing claim rest) ∨ (∃ claim batch rest, call = .sending claim batch rest) ∨
      ∃ claim batch rest, call = .releasing claim batch rest) : call.Proper userId world := by
  rcases hcall with ⟨claim, rest, rfl⟩ | ⟨claim, batch, rest, rfl⟩ | ⟨claim, batch, rest, rfl⟩
  · exact ⟨hnodup, by simp, by simp, by simp, by simp⟩
  · exact ⟨hnodup, by simp, by simp, by simp, by simp⟩
  · exact ⟨hnodup, by simp, by simp, by simp, by simp⟩

theorem keeps_syncStatements {config : Settings} {answer : List Listed} {current : List Member} (hlists : ListsMember userId answer)
    {statement : Statement} (hstatement : statement ∈ syncStatements config answer current) : statement.Keeps userId := by
  unfold syncStatements at hstatement
  rw [List.mem_append, List.mem_append] at hstatement
  rcases hstatement with (hdelete | hrefresh) | hleave
  · obtain ⟨listed, hlisted, rfl⟩ := List.mem_map.mp hdelete
    obtain ⟨hmem, hexcluded⟩ := List.mem_filter.mp hlisted
    intro hsame
    rw [hlists.2 listed hmem hsame] at hexcluded
    exact absurd hexcluded (by simp)
  · obtain ⟨listed, -, rfl⟩ := List.mem_map.mp hrefresh
    split
    next => trivial
    next => exact ⟨config, listed, rfl⟩
  · obtain ⟨row, hrow, rfl⟩ := List.mem_map.mp hleave
    intro hsame
    have hnot := (List.mem_filter.mp hrow).2
    rw [hsame] at hnot
    have hin := hlists.1
    simp only [Bool.and_eq_true, Bool.not_eq_true', List.contains_eq_mem, decide_eq_false_iff_not] at hnot
    exact hnot.1 hin

theorem keys_claimRows (n : ℕ) (claimAt : Millis) (wanted : Member → Bool) (rows : List Member) :
    (claimRows n claimAt wanted rows).map Member.userId = rows.map Member.userId := by
  unfold claimRows
  rw [List.map_map]
  refine List.map_congr_left (fun row _ => ?_)
  rw [Function.comp_apply]
  split <;> rfl

theorem keys_settleRows (ids : List String) (claimAt : Millis) (reminded : Option Date) (rows : List Member) :
    (settleRows ids claimAt reminded rows).map Member.userId = rows.map Member.userId := by
  unfold settleRows
  rw [List.map_map]
  refine List.map_congr_left (fun row _ => ?_)
  rw [Function.comp_apply]
  split <;> rfl

theorem nodup_update (id : String) (change : Member → Member) (hkey : ∀ row, (change row).userId = row.userId)
    (h : (rows.map Member.userId).Nodup) : ((Keyed.update Member.userId id change rows).map Member.userId).Nodup := by
  rw [Keyed.map_update change Member.userId (fun row _ _ => hkey row)]
  exact h

theorem nodup_run (statement : Statement) (now : Millis) (h : (rows.map Member.userId).Nodup) :
    ((statement.run now rows).map Member.userId).Nodup := by
  cases statement with
  | delete id => exact h.sublist (List.filter_sublist.map _)
  | refresh id name => exact nodup_update id (fun row => { row with displayName := name, leftAt := none }) (fun _ => rfl) h
  | insert row =>
      unfold Statement.run
      dsimp only
      split
      next => exact h
      next hnone =>
        have hfresh : row.userId ∉ rows.map Member.userId := by
          rw [← Keyed.find_eq_none]
          simpa [findMember] using hnone
        rw [List.map_append, List.nodup_append]
        refine ⟨h, by simp, fun id hid other hother => ?_⟩
        rw [List.map_singleton, List.mem_singleton] at hother
        rw [hother]
        exact fun hsame => hfresh (hsame ▸ hid)
  | leave id => exact nodup_update id (fun row => { row with leftAt := some now }) (fun _ => rfl) h

theorem kept_of_run (statement : Statement) (hkeeps : statement.Keeps userId)
    (hmembers : after.members = statement.run world.clock world.members) (hsettings : after.settings = world.settings) :
    Kept userId world after := by
  rcases find_run statement world.clock world.members hkeeps with hsame | ⟨row, name, hrow, hnow⟩ | ⟨hnone, config, listed, hnow⟩
  · exact kept_of_rows (by rw [hmembers, hsame]) (by rw [hsettings]; exact fun hin => hin)
  · refine ⟨fun _ => by rw [hmembers, hnow]; rfl, fun now hfind _ => Or.inr ⟨⟨row, hrow, ?_⟩, by rw [hsettings]; exact fun hin => hin⟩⟩
    rw [hmembers, hnow] at hfind
    cases hfind
    exact ⟨rfl, rfl, fun _ => rfl⟩
  · exact ⟨fun hsome => by rw [hnone] at hsome; exact absurd hsome (by simp), fun now _ hsome => by rw [hnone] at hsome; exact absurd hsome (by simp)⟩

theorem kept_same (hmembers : after.members = world.members) (hsettings : after.settings = world.settings) :
    Kept userId world after :=
  kept_of_rows (by rw [hmembers]) (by rw [hsettings]; exact fun hin => hin)

theorem mem_setCall {next : Call} (h : call ∈ (world.setCall n next).calls) : call ∈ world.calls ∨ call = next :=
  List.mem_or_eq_of_mem_set h

theorem mem_withCall {next : Call} (h : call ∈ (world.withCall next).calls) : call ∈ world.calls ∨ call = next :=
  (List.mem_append.mp h).imp_right List.mem_singleton.mp

theorem inherited_of_call (hcall : world.calls[n]? = some call) {old : Party Millis}
    (hold : call.part userId = some old) (hcounted : old.counted = part.counted) (hperiod : old.period = part.period) :
    Inherited userId world part :=
  ⟨call, List.mem_of_getElem? hcall, old, hold, hcounted, hperiod⟩

theorem inherited_of_rest (hcall : world.calls[n]? = some call) (hof : call.part userId = claim.partOf userId phase batch rest)
    (hnodup : ((batch ++ rest).map Claimed.userId).Nodup)
    (hpart : (findClaimed userId rest).map (claim.part .waiting) = some part) : Inherited userId world part := by
  obtain ⟨member, hmember, rfl⟩ := Option.map_eq_some_iff.mp hpart
  unfold Claim.partOf at hof
  rcases hbatch : findClaimed userId batch with _ | first
  · rw [hbatch, hmember, Option.map_none, Option.none_or, Option.map_some] at hof
    exact inherited_of_call hcall hof rfl rfl
  · exact absurd (rest_of_batch hnodup hbatch) (by simp [hmember])

section Moves

variable (hproper : Proper userId world)
  (hperiod : ∀ call ∈ world.calls, ∀ part, call.part userId = some part → part.period ≤ world.updates userId)

include hproper hperiod

theorem proper_moved {next : Call} (hcalls : ∀ call ∈ after.calls, call ∈ world.calls ∨ call = next)
    (hmembers : after.members = world.members) (hclock : after.clock = world.clock) (hsent : ∀ text ∈ world.sent, text ∈ after.sent)
    (hexempt : after.settings.exemptUserIds = world.settings.exemptUserIds) (hnext : next.Proper userId after)
    (hpart : ∀ part, next.part userId = some part → Inherited userId world part) : Proper userId after :=
  hproper.move hperiod hcalls (hmembers ▸ hproper.rows) (Int.le_of_eq hclock.symm) hsent
    (kept_of_rows (by rw [hmembers]) (by rw [hexempt]; exact fun hin => hin)) hnext (fun part hof => Or.inl (hpart part hof))

theorem proper_idleCall {next : Call} (hcalls : ∀ call ∈ after.calls, call ∈ world.calls ∨ call = next)
    (hmembers : after.members = world.members) (hclock : after.clock = world.clock) (hsent : after.sent = world.sent)
    (hexempt : after.settings.exemptUserIds = world.settings.exemptUserIds) (hnext : next.Proper userId after)
    (hquiet : next.part userId = none) : Proper userId after :=
  proper_moved hproper hperiod hcalls hmembers hclock (fun text htext => hsent ▸ htext) hexempt hnext
    (fun part hof => absurd hof (by rw [hquiet]; simp))

theorem proper_setIdle {next : Call} (hidle : ∀ after, next.Proper userId after) (hquiet : next.part userId = none) :
    Proper userId (world.setCall n next) :=
  proper_idleCall hproper hperiod (fun _ hmem => mem_setCall hmem) rfl rfl rfl rfl (hidle _) hquiet

theorem proper_ended : Proper userId (world.setCall n .ended) := proper_setIdle hproper hperiod (fun _ => proper_idle rfl (by simp)) rfl

theorem proper_withIdle {next : Call} (hidle : ∀ after, next.Proper userId after) (hquiet : next.part userId = none) :
    Proper userId (world.withCall next) :=
  proper_idleCall hproper hperiod (fun _ hmem => mem_withCall hmem) rfl rfl rfl rfl (hidle _) hquiet

theorem proper_claimRows (n : ℕ) (next : Call) (wanted : Member → Bool) (claimAt : Millis)
    (hnext : ∀ after : World, next.Proper userId after)
    (hpart : ∀ part, next.part userId = some part → ∃ row, findMember userId world.members = some row ∧
      (part.counted = true → row.expiresOn ≤ shanghaiDay world.clock ∧ row.leftAt = none ∧ userId ∉ world.settings.exemptUserIds)) :
    Proper userId { world.setCall n next with members := claimRows n claimAt wanted world.members } := by
  have hrows := @find_claimRows userId n claimAt wanted world.members
  refine hproper.move hperiod (fun call hcall => mem_setCall hcall) ?_ (Int.le_refl _) (fun text htext => htext)
    (kept_of_map hrows (fun row => ?_) (fun hin => hin)) (hnext _) (fun part hof => Or.inr ?_)
  · rw [keys_claimRows]
    exact hproper.rows
  · split
    next => exact ⟨rfl, rfl, fun hleft => hleft⟩
    next => exact ⟨rfl, rfl, fun hleft => hleft⟩
  · obtain ⟨row, hrow, hdue⟩ := hpart part hof
    rw [hrow, Option.map_some] at hrows
    refine ⟨by rw [hrows]; rfl, fun hcounted now hnow => ?_⟩
    rw [hrows] at hnow
    obtain ⟨hexpired, hleft, hliable⟩ := hdue hcounted
    cases hnow
    split
    next => exact ⟨hexpired, hleft, hliable⟩
    next => exact ⟨hexpired, hleft, hliable⟩

theorem proper_claim {request : Request} {config : Settings} {today : Date} {claimAt : Millis}
    (hcall : world.calls[n]? = some (.claiming request config today claimAt)) :
    Proper userId (runClaim n request config today claimAt world) := by
  have htoday := (hproper.calls _ (List.mem_of_getElem? hcall)).today request config today claimAt rfl
  have hended : Proper userId (world.setCall n .ended) := proper_ended hproper hperiod
  cases request with
  | review dryRun byTick =>
      cases dryRun with
      | true => exact hended
      | false =>
          refine proper_claimRows hproper hperiod n _ _ claimAt (fun after => proper_holding ?_ (Or.inl ⟨_, _, rfl⟩)) (fun part hof => ?_)
          · have hkeys : ((world.members.filter (candidate world.settings.exemptUserIds today claimAt)).map claimedOf).map Claimed.userId =
                (world.members.filter (candidate world.settings.exemptUserIds today claimAt)).map Member.userId := by
              rw [List.map_map]
              rfl
            change (((world.members.filter _).map claimedOf).map Claimed.userId).Nodup
            rw [hkeys]
            exact hproper.rows.sublist (List.filter_sublist.map _)
          · unfold Call.part at hof
            dsimp only at hof
            rw [find_claimed _ _ hproper.rows] at hof
            obtain ⟨member, hmember, -⟩ := Option.map_eq_some_iff.mp hof
            obtain ⟨row, hrow, -⟩ := Option.map_eq_some_iff.mp hmember
            obtain ⟨hfind, hwanted⟩ := Option.filter_eq_some_iff.mp hrow
            have hid := userId_of_find hfind
            simp only [candidate, Bool.and_eq_true, decide_eq_true_eq, Option.isNone_iff_eq_none, Bool.not_eq_true',
              List.contains_eq_mem, decide_eq_false_iff_not] at hwanted
            rw [hid] at hwanted
            exact ⟨row, hfind, fun _ => ⟨Int.le_trans hwanted.1.1.1.1 htoday, hwanted.1.1.1.2, hwanted.2⟩⟩
  | remind id =>
      unfold runClaim
      dsimp only
      rw [find_remindable id today claimAt world.members hproper.rows]
      rcases hwanted : (findMember id world.members).filter (remindable id today claimAt) with _ | row
      · exact hended
      · obtain ⟨hfind, -⟩ := Option.filter_eq_some_iff.mp hwanted
        have hid := userId_of_find hfind
        refine proper_claimRows hproper hperiod n _ _ claimAt (fun after => ?_) (fun part hof => ?_)
        · split
          next => exact proper_idle rfl (by simp)
          next => exact proper_holding (by simp [Call.members]) (Or.inl ⟨_, _, rfl⟩)
        · have hsame : row.userId = userId ∧ part.counted = false := by
            split at hof
            next =>
              simp only [Call.part] at hof
              split at hof
              next hsame =>
                cases hof
                exact ⟨hsame, rfl⟩
              next => exact absurd hof (by simp)
            next =>
              obtain ⟨member, hmember, rfl⟩ := Option.map_eq_some_iff.mp hof
              obtain ⟨hmem, hkey⟩ := Keyed.mem_of_find hmember
              rw [List.mem_singleton.mp hmem] at hkey
              exact ⟨hkey, rfl⟩
          refine ⟨row, ?_, fun hcounted => absurd hcounted (by simp [hsame.2])⟩
          rw [← hsame.1, hid]
          exact hfind

theorem proper_settle (hcall : world.calls[n]? = some call) (hpart : call.part userId = claim.partOf userId phase batch rest)
    (hnodup : ((batch ++ rest).map Claimed.userId).Nodup) (reminded : Option Date) :
    Proper userId
      { world.setCall n (.continuing claim rest) with
        members := settleRows (batch.map Claimed.userId) claim.claimAt reminded world.members } := by
  refine hproper.move hperiod (fun call hmem => mem_setCall hmem) ?_ (Int.le_refl _) (fun text htext => htext)
    (kept_of_map (find_settleRows _ _ _ _) (fun row => ?_) (fun hin => hin)) (proper_holding ?_ (Or.inl ⟨_, _, rfl⟩))
    (fun part hof => Or.inl (inherited_of_rest hcall hpart hnodup hof))
  · rw [keys_settleRows]
    exact hproper.rows
  · split
    next => exact ⟨rfl, rfl, fun hleft => hleft⟩
    next => exact ⟨rfl, rfl, fun hleft => hleft⟩
  · rw [List.map_append] at hnodup
    exact (List.nodup_append.mp hnodup).2.1

theorem proper_update {id : String} {body : Body} {exemptIds : Option (List String)}
    (hmay : ∀ ids, exemptIds = some ids → id ≠ userId → userId ∈ ids → userId ∈ world.settings.exemptUserIds) :
    Proper userId (runUpdate n id body exemptIds world) := by
  unfold runUpdate
  split
  next =>
    refine hproper.move hperiod (fun call hmem => mem_setCall hmem) (nodup_update id (updateRow body) (fun _ => rfl) hproper.rows)
      (Int.le_refl _) (fun text htext => htext) ?_ (proper_idle rfl (by simp)) (fun part hof => absurd hof (by simp [Call.part]))
    by_cases hid : id = userId
    · subst hid
      have hrows := find_update id (updateRow body) (fun _ => rfl) world.members
      refine ⟨fun hsome => ?_, fun now hnow hsome => Or.inl ?_⟩
      · change (findMember id (Keyed.update Member.userId id (updateRow body) world.members)).isSome
        rw [hrows, Option.isSome_map]
        exact hsome
      · obtain ⟨row, hrow⟩ := Option.isSome_iff_exists.mp hsome
        rw [updates_of_find hnow, updates_of_find hrow]
        change findMember id (Keyed.update Member.userId id (updateRow body) world.members) = some now at hnow
        rw [hrows, hrow] at hnow
        cases hnow
        exact Nat.lt_succ_self _
    · refine kept_of_rows (find_update_ne hid (updateRow body) (fun _ => rfl) world.members) ?_
      cases exemptIds with
      | none => exact fun hin => hin
      | some ids => exact hmay ids rfl hid
  next => exact proper_ended hproper hperiod

/-- **Every statement keeps what the calls know.** -/
theorem proper_sql (hcall : world.calls[n]? = some call) (hmay : MayRun userId world (some call)) :
    Proper userId (runSql n call world) := by
  have hof := hproper.calls _ (List.mem_of_getElem? hcall)
  cases call with
  | starting request =>
      exact proper_setIdle hproper hperiod (fun _ => proper_idle rfl (by simp)) rfl
  | reading request config answer =>
      have hlists := hof.answer request config answer rfl
      refine proper_idleCall hproper hperiod (fun _ hmem => mem_setCall hmem) rfl rfl rfl rfl
        ⟨List.nodup_nil, by simp, fun _ _ _ heq => ?_, by simp, by simp⟩ rfl
      cases heq
      exact fun statement hstatement => keeps_syncStatements hlists hstatement
  | syncing request config todo =>
      have hkeeps := hof.todo request config todo rfl
      cases todo with
      | nil =>
          refine proper_idleCall hproper hperiod (fun _ hmem => mem_setCall hmem) rfl rfl rfl rfl
            ⟨List.nodup_nil, by simp, by simp, fun _ _ _ _ heq => ?_, by simp⟩ rfl
          cases heq
          exact Int.le_refl _
      | cons statement rest =>
          refine hproper.move hperiod (fun _ hmem => mem_setCall hmem) (nodup_run statement world.clock hproper.rows) (Int.le_refl _)
            (fun _ htext => htext) (kept_of_run statement (hkeeps statement List.mem_cons_self) rfl rfl)
            ⟨List.nodup_nil, by simp, fun _ _ _ heq => ?_, by simp, by simp⟩ (fun _ hno => absurd hno (by simp [Call.part]))
          cases heq
          exact fun other hother => hkeeps other (List.mem_cons_of_mem _ hother)
  | claiming request config today claimAt => exact proper_claim hproper hperiod hcall
  | marking claim batch rest => exact proper_settle hproper hperiod hcall rfl hof.members (some claim.today)
  | releasing claim batch rest => exact proper_settle hproper hperiod hcall rfl hof.members none
  | clearing claimAt member =>
      have hkept : Kept userId world { world.setCall n .ended with
          members := Keyed.update Member.userId member.userId (fun row => { row with remindClaimedAt := none, holder := none })
            world.members } := by
        by_cases hid : member.userId = userId
        · have hrows := find_update member.userId (fun row => { row with remindClaimedAt := none, holder := none }) (fun _ => rfl) world.members
          rw [← hid]
          exact kept_of_map hrows (fun _ => ⟨rfl, rfl, fun hleft => hleft⟩) (fun hin => hin)
        · exact kept_of_rows (find_update_ne hid (fun row => { row with remindClaimedAt := none, holder := none }) (fun _ => rfl) world.members)
            (fun hin => hin)
      exact hproper.move hperiod (fun _ hmem => mem_setCall hmem)
        (nodup_update member.userId (fun row => { row with remindClaimedAt := none, holder := none }) (fun _ => rfl) hproper.rows)
        (Int.le_refl _) (fun _ htext => htext) hkept (proper_idle rfl (by simp)) (fun _ hno => absurd hno (by simp [Call.part]))
  | adjusting id body exempt =>
      exact proper_setIdle hproper hperiod (fun _ => proper_idle rfl (by simp)) rfl
  | updating id body exemptIds =>
      refine proper_update hproper hperiod (fun ids hids => ?_)
      subst hids
      exact hmay
  | ticking current today =>
      unfold runSql
      dsimp only
      split
      next => exact proper_setIdle hproper hperiod (fun _ => proper_idle rfl (by simp)) rfl
      next => exact @proper_idleCall _ _ _ hproper hperiod .ended (fun _ hmem => mem_setCall hmem) rfl rfl rfl rfl (proper_idle rfl (by simp)) rfl
  | recording current today =>
      exact @proper_idleCall _ _ _ hproper hperiod .ended (fun _ hmem => mem_setCall hmem) rfl rfl rfl rfl (proper_idle rfl (by simp)) rfl
  | _ => exact hproper

theorem proper_goOn (hcall : world.calls[n]? = some (.continuing claim rest)) :
    Proper userId (goOn n claim rest world) := by
  have hmembers := (hproper.calls _ (List.mem_of_getElem? hcall)).members
  unfold goOn
  split
  next =>
    split
    next => exact proper_setIdle hproper hperiod (fun _ => proper_idle rfl (by simp)) rfl
    next => exact proper_ended hproper hperiod
  next =>
    have hbatch : ∀ batch : List Claimed, (batch.map (fun member => { member with naming := world.updates member.userId })).map
        Claimed.userId = batch.map Claimed.userId := by
      intro batch
      rw [List.map_map]
      rfl
    refine proper_moved hproper hperiod (fun _ hmem => mem_setCall hmem) rfl rfl (fun _ htext => htext) rfl
      (proper_holding ?_ (Or.inr (Or.inl ⟨_, _, _, rfl⟩))) (fun part hof => ?_)
    · change ((_ ++ rest.drop 20).map Claimed.userId).Nodup
      rw [List.map_append, hbatch, ← List.map_append, List.take_append_drop]
      exact hmembers
    · have hbefore : (Call.continuing claim rest).part userId = (findClaimed userId rest).map (claim.part .waiting) := rfl
      rw [find_take_drop userId rest] at hbefore
      rcases partOf_cases hof with ⟨member, hmember, rfl⟩ | ⟨hnone, member, hmember, rfl⟩
      · rw [find_batch] at hmember
        obtain ⟨first, hfirst, rfl⟩ := Option.map_eq_some_iff.mp hmember
        rw [hfirst] at hbefore
        exact inherited_of_call hcall hbefore rfl rfl
      · rw [find_batch, Option.map_eq_none_iff] at hnone
        rw [hnone, hmember] at hbefore
        exact inherited_of_call hcall hbefore rfl rfl

theorem proper_endSend (hcall : world.calls[n]? = some (.sending claim batch rest))
    (ok : Bool) : Proper userId (endSend n claim batch rest ok world) := by
  have hmembers := (hproper.calls _ (List.mem_of_getElem? hcall)).members
  have hinherited : ∀ (phase : Claimed → Phase) part, claim.partOf userId phase batch rest = some part → Inherited userId world part := by
    intro phase part hof
    have hbefore : (Call.sending claim batch rest).part userId = claim.partOf userId (fun member => .sending member.naming) batch rest := rfl
    unfold Claim.partOf at hbefore
    rcases partOf_cases hof with ⟨member, hmember, rfl⟩ | ⟨hnone, member, hmember, rfl⟩
    · rw [hmember] at hbefore
      exact inherited_of_call hcall hbefore rfl rfl
    · rw [hnone, hmember] at hbefore
      exact inherited_of_call hcall hbefore rfl rfl
  unfold endSend
  split
  next =>
    refine @proper_moved _ _ _ hproper hperiod (.marking claim batch rest) (fun _ hmem => mem_setCall hmem) rfl rfl
      (fun text htext => List.mem_append_left _ htext) rfl ⟨hmembers, by simp, by simp, by simp, fun _ _ _ heq member hmember => ?_⟩
      (hinherited _)
    cases heq
    exact ⟨_, List.mem_append_right _ List.mem_cons_self, List.mem_map.mpr ⟨member, hmember, rfl⟩⟩
  next =>
    exact proper_moved hproper hperiod (fun _ hmem => mem_setCall hmem) rfl rfl (fun _ htext => htext) rfl
      (proper_holding hmembers (Or.inr (Or.inr ⟨_, _, _, rfl⟩))) (hinherited _)

theorem proper_step (shanghaiHour : Millis → ℕ) (op : Op) (hallowed : Allowed userId world op) :
    Proper userId (step shanghaiHour op world) := by
  cases op with
  | review dryRun => exact proper_withIdle hproper hperiod (fun _ => proper_idle rfl (by simp)) rfl
  | remind id => exact proper_withIdle hproper hperiod (fun _ => proper_idle rfl (by simp)) rfl
  | updateMember id body =>
      unfold step updateMember
      dsimp only
      split
      next => exact hproper
      next =>
        split
        next => exact proper_withIdle hproper hperiod (fun _ => proper_idle rfl (by simp)) rfl
        next => exact proper_withIdle hproper hperiod (fun _ => proper_idle rfl (by simp)) rfl
  | tick =>
      unfold step tick
      dsimp only
      split
      next => exact hproper
      next =>
        split
        next => exact hproper
        next =>
          exact @proper_idleCall _ _ _ hproper hperiod (.ticking world.clock (shanghaiDay world.clock)) (fun _ hmem => mem_withCall hmem)
            rfl rfl rfl rfl (proper_idle rfl (by simp)) rfl
  | pass millis =>
      have hclock : world.clock ≤ world.clock + millis := Int.le_add_of_nonneg_right (Int.natCast_nonneg _)
      exact @Proper.move _ _ _ hproper hperiod .ended (fun _ hmem => Or.inl hmem) hproper.rows hclock (fun _ htext => htext)
        (kept_same rfl rfl) (proper_idle rfl (by simp)) (fun _ hno => absurd hno (by simp [Call.part]))
  | sql n =>
      unfold step
      unfold Allowed at hallowed
      dsimp only at hallowed ⊢
      rcases hcall : world.calls[n]? with _ | call
      · exact hproper
      · rw [hcall] at hallowed
        exact proper_sql hproper hperiod hcall hallowed
  | answer n answer =>
      unfold step
      dsimp only
      split
      next hcall =>
        cases answer with
        | none =>
            change Proper userId (failListing n _ world)
            unfold failListing
            split
            next => exact @proper_idleCall _ _ _ hproper hperiod .ended (fun _ hmem => mem_setCall hmem) rfl rfl rfl rfl (proper_idle rfl (by simp)) rfl
            next => exact proper_ended hproper hperiod
        | some listed =>
            refine proper_idleCall hproper hperiod (fun _ hmem => mem_setCall hmem) rfl rfl rfl rfl
              ⟨List.nodup_nil, fun _ _ _ heq => ?_, by simp, by simp, by simp⟩ rfl
            cases heq
            exact hallowed
      next => exact hproper
  | go n =>
      unfold step
      dsimp only
      split
      next hcall => exact proper_goOn hproper hperiod hcall
      next => exact hproper
  | sent n ok =>
      unfold step
      dsimp only
      split
      next hcall => exact proper_endSend hproper hperiod hcall ok
      next => exact hproper

end Moves

end View

end TradingHarness.Memberships
