import TradingHarness.Library.Driven
import TradingHarness.Library.Keyed
import TradingHarness.Paper.Execution

set_option autoImplicit false

/-! # Memberships

`memberships.mjs`: the members of a group with the days their terms end, and the reminders of the group's bot. A call runs without
interruption from one `await` to the next, and each statement of the ledger runs by itself. -/

namespace TradingHarness.Memberships

/-! ## Days -/

/-- A moment in milliseconds. -/
abbrev Millis := ℤ

/-- `shanghaiDate` -/
def shanghaiDay (moment : Millis) : Date := shanghaiDate (moment * 1000)

/-- A day of the calendar. -/
structure Civil where
  year : ℤ
  month : ℤ
  day : ℤ
deriving DecidableEq

/-- `Date.UTC`, in days. Years begin in March. -/
def daysOf (civil : Civil) : Date :=
  let year := if civil.month ≤ 2 then civil.year - 1 else civil.year
  let yearOfEra := year % 400
  let dayOfYear := (153 * ((civil.month + 9) % 12) + 2) / 5 + civil.day - 1
  year / 400 * 146097 + (yearOfEra * 365 + yearOfEra / 4 - yearOfEra / 100 + dayOfYear) - 719468

/-- `getUTCFullYear`, `getUTCMonth` and `getUTCDate`. -/
def civilOf (date : Date) : Civil :=
  let days := date + 719468
  let dayOfEra := days % 146097
  let yearOfEra := (dayOfEra - dayOfEra / 1460 + dayOfEra / 36524 - dayOfEra / 146096) / 365
  let dayOfYear := dayOfEra - (365 * yearOfEra + yearOfEra / 4 - yearOfEra / 100)
  let shifted := (5 * dayOfYear + 2) / 153
  let month := if shifted < 10 then shifted + 3 else shifted - 9
  let year := yearOfEra + days / 146097 * 400
  ⟨if month ≤ 2 then year + 1 else year, month, dayOfYear - (153 * shifted + 2) / 5 + 1⟩

def addMonths (value : Date) (months : ℤ) : Date :=
  let civil := civilOf value
  let targetMonth := civil.month - 1 + months
  let targetYear := civil.year + targetMonth / 12
  let normalizedMonth := targetMonth % 12
  let nextMonth := if normalizedMonth = 11 then daysOf ⟨targetYear + 1, 1, 1⟩ else daysOf ⟨targetYear, normalizedMonth + 2, 1⟩
  let lastDay := nextMonth - daysOf ⟨targetYear, normalizedMonth + 1, 1⟩
  daysOf ⟨targetYear, normalizedMonth + 1, min civil.day lastDay⟩

example : addMonths (daysOf ⟨2026, 1, 31⟩) 1 = daysOf ⟨2026, 2, 28⟩ ∧ addMonths (daysOf ⟨2024, 2, 29⟩) 12 = daysOf ⟨2025, 2, 28⟩ := by
  decide +kernel

/-! ## Rows -/

/-- A row of the group in `feishu_group_relay_memberships`. The last two fields are no columns: the call whose claim the row has, and
    how often the member has been updated. -/
structure Member where
  userId : String
  displayName : String
  startedOn : Date
  termMonths : ℤ
  expiresOn : Date
  note : Option String := none
  remindedOn : Option Date := none
  remindClaimedAt : Option Millis := none
  leftAt : Option Millis := none
  expiryFixed : Bool := false
  holder : Option ℕ := none
  updates : ℕ := 0

/-- The group's row of `feishu_group_relay_membership_settings`. -/
structure Settings where
  enabled : Bool
  defaultTermMonths : ℤ
  remindText : String
  exemptUserIds : List String
  lastReviewOn : Option Date

/-- An entry of the bridge's list of members. -/
structure Listed where
  userId : String
  name : String
  joinedAt : ℤ
  isBot : Bool
  isSelf : Bool

variable (n : ℕ) (userId : String)

def findMember (rows : List Member) : Option Member := Keyed.find Member.userId userId rows

/-! ## Statements -/

/-- The statements of `sync`. -/
inductive Statement
  | delete (userId : String)
  | refresh (userId name : String)
  | insert (row : Member)
  | leave (userId : String)

def Listed.excluded (listed : Listed) : Bool := listed.isBot || listed.isSelf

/-- The row that `sync` gives a new member. -/
def newMember (config : Settings) (listed : Listed) : Member where
  userId := listed.userId
  displayName := listed.name
  startedOn := shanghaiDay (listed.joinedAt * 1000)
  termMonths := config.defaultTermMonths
  expiresOn := addMonths (shanghaiDay (listed.joinedAt * 1000)) config.defaultTermMonths

/-- What `sync` does, given the bridge's list and the rows it has read. -/
def syncStatements (config : Settings) (answer : List Listed) (current : List Member) : List Statement :=
  (answer.filter Listed.excluded).map (fun listed => .delete listed.userId) ++
    (answer.filter (fun listed => !listed.excluded)).map (fun listed =>
      if (findMember listed.userId current).isSome then .refresh listed.userId listed.name else .insert (newMember config listed)) ++
    (current.filter (fun row => !(answer.map Listed.userId).contains row.userId && row.leftAt.isNone)).map (fun row => .leave row.userId)

def Statement.run (now : Millis) (rows : List Member) : Statement → List Member
  | .delete userId => rows.filter (fun row => !(row.userId == userId))
  | .refresh userId name => Keyed.update Member.userId userId (fun row => { row with displayName := name, leftAt := none }) rows
  | .insert row => if (findMember row.userId rows).isSome then rows else rows ++ [row]
  | .leave userId => Keyed.update Member.userId userId (fun row => { row with leftAt := some now }) rows

/-- `remind_claimed_at IS NULL OR remind_claimed_at < claimAt - interval '10 minutes'` -/
def claimFree (claimAt : Millis) (row : Member) : Bool := row.remindClaimedAt.all (fun claimed => decide (claimed < claimAt - 600000))

/-- `candidateSql` -/
def candidate (exemptUserIds : List String) (today : Date) (claimAt : Millis) (row : Member) : Bool :=
  decide (row.expiresOn ≤ today) && row.leftAt.isNone && row.remindedOn.isNone && claimFree claimAt row &&
    !exemptUserIds.contains row.userId

/-- The condition of the claim of `remind`. -/
def remindable (today : Date) (claimAt : Millis) (row : Member) : Bool :=
  row.userId == userId && decide (row.expiresOn ≤ today) && row.leftAt.isNone && claimFree claimAt row

/-- A claim of call `n`. -/
def claimRows (claimAt : Millis) (wanted : Member → Bool) (rows : List Member) : List Member :=
  rows.map (fun row => if wanted row then { row with remindClaimedAt := some claimAt, holder := some n } else row)

/-- The rows of `ids` whose claim is still the one of `claimAt` lose it, and are marked as reminded on a day. -/
def settleRows (ids : List String) (claimAt : Millis) (reminded : Option Date) (rows : List Member) : List Member :=
  rows.map (fun row =>
    if ids.contains row.userId && row.remindClaimedAt == some claimAt then
      { row with remindedOn := reminded.or row.remindedOn, remindClaimedAt := none, holder := none }
    else row)

/-- The body of `updateMember`, its dates and its term parsed. -/
structure Body where
  startedOn : Date
  termMonths : ℤ
  expiresOn : Option Date := none
  note : Option String := none
  exempt : Option Bool := none

def Body.expiry (body : Body) : Date := body.expiresOn.getD (addMonths body.startedOn body.termMonths)

/-- The `UPDATE` of `updateMember`. -/
def updateRow (body : Body) (row : Member) : Member :=
  { row with
    startedOn := body.startedOn, termMonths := body.termMonths, expiresOn := body.expiry, note := body.note
    remindedOn := none, remindClaimedAt := none, expiryFixed := body.expiresOn.isSome
    holder := none, updates := row.updates + 1 }

/-! ## Calls -/

inductive Request
  /-- `byTick` has the moment and the day of the `tick` that waits for the review. -/
  | review (dryRun : Bool) (byTick : Option (Millis × Date))
  | remind (userId : String)

/-- What a call has of a member: `updates` when it was claimed and, behind the start of its send, `naming` then. -/
structure Claimed where
  userId : String
  displayName : String
  updates : ℕ
  naming : ℕ := 0

structure Claim where
  review : Bool
  byTick : Option (Millis × Date)
  remindText : String
  today : Date
  claimAt : Millis

/-- Where a call waits. -/
inductive Call
  /-- For the settings, the bridge's list, the rows, and the statements of `sync`. -/
  | starting (request : Request)
  | listing (request : Request) (config : Settings)
  | reading (request : Request) (config : Settings) (answer : List Listed)
  | syncing (request : Request) (config : Settings) (todo : List Statement)
  | claiming (request : Request) (config : Settings) (today : Date) (claimAt : Millis)
  /-- For a statement's answer, with the members that are not named yet. -/
  | continuing (claim : Claim) (rest : List Claimed)
  | sending (claim : Claim) (batch rest : List Claimed)
  /-- For the statement behind a send that succeeded, or failed. -/
  | marking (claim : Claim) (batch rest : List Claimed)
  | releasing (claim : Claim) (batch rest : List Claimed)
  /-- `remind` for the statement that drops the claim of an exempt member. -/
  | clearing (claimAt : Millis) (member : Claimed)
  /-- `updateMember` for the settings, and for its statement. -/
  | adjusting (userId : String) (body : Body) (exempt : Bool)
  | updating (userId : String) (body : Body) (exemptIds : Option (List String))
  /-- `tick` for the settings, and for the day of its review. -/
  | ticking (current : Millis) (today : Date)
  | recording (current : Millis) (today : Date)
  | ended

/-- A text that has gone out, with its members and how often they had been updated. -/
structure Sent where
  review : Bool
  text : String
  members : List (String × ℕ)

structure World where
  members : List Member
  settings : Settings
  clock : Millis
  calls : List Call := []
  running : Bool := false
  retryAfter : Millis := 0
  sent : List Sent := []

inductive Op
  | review (dryRun : Bool)
  | remind (userId : String)
  | updateMember (userId : String) (body : Body)
  | tick
  /-- Time passes. -/
  | pass (millis : ℕ)
  /-- The statement runs that a call waits for. -/
  | sql (n : ℕ)
  /-- The bridge answers a call, or fails. -/
  | answer (n : ℕ) (answer : Option (List Listed))
  /-- A call goes on behind a statement. -/
  | go (n : ℕ)
  /-- A send succeeds or fails. -/
  | sent (n : ℕ) (ok : Bool)

def World.withCall (call : Call) (world : World) : World := { world with calls := world.calls ++ [call] }

def World.setCall (call : Call) (world : World) : World := { world with calls := world.calls.set n call }

def escapedName (name : String) : String :=
  (((name.replace "&" "&amp;").replace "<" "&lt;").replace ">" "&gt;").replace "\"" "&quot;"

/-- The text of a batch. -/
def reminderText (batch : List Claimed) (remindText : String) : String :=
  String.join (batch.map (fun member => "<at user_id=\"" ++ member.userId ++ "\">" ++ escapedName member.displayName ++ "</at>")) ++
    " " ++ remindText

/-- How often the member of a row has been updated. -/
def World.updates (world : World) : ℕ := ((findMember userId world.members).map Member.updates).getD 0

def claimedOf (row : Member) : Claimed := ⟨row.userId, row.displayName, row.updates, 0⟩

/-- `updateMember`, up to its first statement. -/
def updateMember (body : Body) (world : World) : World :=
  if body.termMonths < 1 ∨ 120 < body.termMonths ∨ body.expiry < body.startedOn then world
  else
    match body.exempt with
    | some exempt => world.withCall (.adjusting userId body exempt)
    | none => world.withCall (.updating userId body none)

section Ticks

-- the hour of a moment in Shanghai, as the platform formats it
variable (shanghaiHour : Millis → ℕ)

/-- `tick`, up to the settings. -/
def tick (world : World) : World :=
  if world.running then world
  else if shanghaiHour world.clock < 9 then world
  else { world.withCall (.ticking world.clock (shanghaiDay world.clock)) with running := true }

/-- The claim of a call runs. -/
def runClaim (request : Request) (config : Settings) (today : Date) (claimAt : Millis) (world : World) : World :=
  match request with
  | .review true _ => world.setCall n .ended
  | .review false byTick =>
      let wanted := candidate world.settings.exemptUserIds today claimAt
      { world.setCall n (.continuing ⟨true, byTick, config.remindText, today, claimAt⟩ ((world.members.filter wanted).map claimedOf)) with
        members := claimRows n claimAt wanted world.members }
  | .remind userId =>
      let wanted := remindable userId today claimAt
      match world.members.find? wanted with
      | none => world.setCall n .ended
      | some row =>
          { world.setCall n
              (if config.exemptUserIds.contains userId then .clearing claimAt (claimedOf row)
                else .continuing ⟨false, none, config.remindText, today, claimAt⟩ [claimedOf row]) with
            members := claimRows n claimAt wanted world.members }

/-- The exempt members once one is made exempt, or is not exempt any more. -/
def adjusted (exempt : Bool) (exemptUserIds : List String) : List String :=
  if exempt then (if exemptUserIds.contains userId then exemptUserIds else exemptUserIds ++ [userId])
  else exemptUserIds.filter (fun id => !(id == userId))

/-- The statement of `updateMember` runs. -/
def runUpdate (body : Body) (exemptIds : Option (List String)) (world : World) : World :=
  if (findMember userId world.members).isSome then
    { world.setCall n .ended with
      members := Keyed.update Member.userId userId (updateRow body) world.members
      settings := { world.settings with exemptUserIds := exemptIds.getD world.settings.exemptUserIds } }
  else world.setCall n .ended

/-- The statement runs that a call waits for, and the call goes on to its next one where nothing else is between them. -/
def runSql (call : Call) (world : World) : World :=
  match call with
  | .starting request => world.setCall n (.listing request world.settings)
  | .reading request config answer => world.setCall n (.syncing request config (syncStatements config answer world.members))
  | .syncing request config (statement :: rest) =>
      { world.setCall n (.syncing request config rest) with members := statement.run world.clock world.members }
  | .syncing request config [] => world.setCall n (.claiming request config (shanghaiDay world.clock) world.clock)
  | .claiming request config today claimAt => runClaim n request config today claimAt world
  | .marking claim batch rest =>
      { world.setCall n (.continuing claim rest) with
        members := settleRows (batch.map Claimed.userId) claim.claimAt (some claim.today) world.members }
  | .releasing claim batch rest =>
      { world.setCall n (.continuing claim rest) with
        members := settleRows (batch.map Claimed.userId) claim.claimAt none world.members }
  | .clearing _ member =>
      { world.setCall n .ended with
        members := Keyed.update Member.userId member.userId (fun row => { row with remindClaimedAt := none, holder := none }) world.members }
  | .adjusting userId body exempt =>
      world.setCall n (.updating userId body (some (adjusted userId exempt world.settings.exemptUserIds)))
  | .updating userId body exemptIds => runUpdate n userId body exemptIds world
  | .ticking current today =>
      if world.settings.enabled && !(world.settings.lastReviewOn == some today) && decide (world.retryAfter ≤ current) then
        world.setCall n (.starting (.review false (some (current, today))))
      else { world.setCall n .ended with running := false }
  | .recording _ today =>
      { world.setCall n .ended with settings := { world.settings with lastReviewOn := some today }, running := false, retryAfter := 0 }
  | _ => world

/-- A review whose list does not come ends its `tick`, which tries again in an hour. -/
def failListing (request : Request) (world : World) : World :=
  match request with
  | .review _ (some (current, _)) => { world.setCall n .ended with running := false, retryAfter := current + 3600000 }
  | _ => world.setCall n .ended

/-- A call goes on to its next batch, or ends. -/
def goOn (claim : Claim) (rest : List Claimed) (world : World) : World :=
  if rest.isEmpty then
    match claim.byTick with
    | some (current, today) => world.setCall n (.recording current today)
    | none => world.setCall n .ended
  else
    world.setCall n
      (.sending claim ((rest.take 20).map (fun member => { member with naming := world.updates member.userId })) (rest.drop 20))

/-- A send ends. -/
def endSend (claim : Claim) (batch rest : List Claimed) (ok : Bool) (world : World) : World :=
  if ok then
    { world.setCall n (.marking claim batch rest) with
      sent := world.sent ++
        [⟨claim.review, reminderText batch claim.remindText, batch.map (fun member => (member.userId, member.naming))⟩] }
  else world.setCall n (.releasing claim batch rest)

def step (op : Op) (world : World) : World :=
  match op with
  | .review dryRun => world.withCall (.starting (.review dryRun none))
  | .remind userId => world.withCall (.starting (.remind userId))
  | .updateMember userId body => updateMember userId body world
  | .tick => tick shanghaiHour world
  | .pass millis => { world with clock := world.clock + millis }
  | .sql n => (world.calls[n]?).elim world (fun call => runSql n call world)
  | .answer n answer =>
      match world.calls[n]? with
      | some (.listing request config) =>
          answer.elim (failListing n request world) (fun listed => world.setCall n (.reading request config listed))
      | _ => world
  | .go n =>
      match world.calls[n]? with
      | some (.continuing claim rest) => goOn n claim rest world
      | _ => world
  | .sent n ok =>
      match world.calls[n]? with
      | some (.sending claim batch rest) => endSend n claim batch rest ok world
      | _ => world

end Ticks

end TradingHarness.Memberships
