import TradingHarness.Library.Dict
import TradingHarness.Tactics.Conditions

set_option autoImplicit false

/-! # Ladder roles

The roles that a stock of a close sample plays among the day's stocks and against the readings of the sessions before
(`tactic_conditions.py`). A comparison with a value that is not there raises, so the functions return in `Except`. -/

namespace TradingHarness

/-! ## Rows and readings -/

/-- The text `HH:MM:SS` of a seal. -/
structure SealTime where
  hours : ℕ
  minutes : ℕ
  seconds : ℕ

/-- A row of a close sample (`build_trial_row`), as far as the roles read it. -/
structure RoleRow where
  symbol : String
  sector : Option String := none
  boards : Option ℚ := none
  firstSealTime : Option SealTime := none
  sealMoney : Option ℚ := none
  reopened : Option ℚ := none
  oneWord : Option Bool := none
  vr : Option ℚ := none

/-- A stored close reading. -/
structure CloseReading where
  complete : Bool
  rows : List RoleRow

inductive RoleError
  | typeError

/-- A value that is compared or converted. -/
def present {α : Type} : Option α → Except RoleError α
  | none => .error .typeError
  | some value => .ok value

@[simp] theorem present_some {α : Type} (value : α) : present (some value) = .ok value := rfl

/-- `and`: what comes second is not looked at when the first is false. -/
def andAlso (first : Bool) (second : Except RoleError Bool) : Except RoleError Bool := if first then second else .ok false

def sealSeconds (value : Option SealTime) : Option ℕ := value.map (fun t => t.hours * 3600 + t.minutes * 60 + t.seconds)

variable (row : RoleRow) (rows : List RoleRow) (previous : List (Option CloseReading))

def RoleRow.seal : Option ℕ := sealSeconds row.firstSealTime

/-- `bool(...)` of a number that may be missing. -/
def truthyNumber (value : Option ℚ) : Bool :=
  match value with
  | none => false
  | some number => decide (number ≠ 0)

def completeRows (reading : Option CloseReading) : Option (List RoleRow) :=
  match reading with
  | none => none
  | some reading => if reading.complete then some reading.rows else none

def rowFor (symbol : String) : Option RoleRow := rows.find? (fun row => decide (row.symbol = symbol))

/-! ## The leader of a theme -/

variable (sector : Option String) (theme : List RoleRow)

/-- The rows of a sector; those without one for none. -/
def themeOf : List RoleRow := rows.filter (fun row => decide (row.sector = sector))

/-- `not sector`. -/
def noSector : Bool := decide (sector = none ∨ sector = some "")

/-- One key is less than another: seals that are equal, or both missing, leave it to the symbols. -/
def sealsBefore (a b : RoleRow) : Except RoleError Bool :=
  match a.seal, b.seal with
  | none, none => .ok (decide (a.symbol < b.symbol))
  | some s, some t => .ok (if s = t then decide (a.symbol < b.symbol) else decide (s < t))
  | _, _ => .error .typeError

/-- The key of a leader: more boards first, then the earlier seal. -/
def leadsBefore (a b : RoleRow) : Except RoleError Bool := do
  let x ← present a.boards
  let y ← present b.boards
  if x = y then sealsBefore a b else return decide (y < x)

/-- `min` with a key that may raise: the first of the least. -/
def minBy (before : RoleRow → RoleRow → Except RoleError Bool) : RoleRow → List RoleRow → Except RoleError RoleRow
  | best, [] => .ok best
  | best, row :: rest => do
      if ← before row best then minBy before row rest else minBy before best rest

def themeLeader : Except RoleError (Option RoleRow) :=
  if noSector sector then .ok none
  else
    match themeOf rows sector with
    | first :: second :: rest => do return some (← minBy leadsBefore first (second :: rest))
    | _ => .ok none

/-! ## The roles of the day -/

/-- The earliest of at least three stocks of its board count. -/
def tierFirstValue (tier : List RoleRow) : Except RoleError (Option Bool) :=
  match row.boards, row.seal, tier with
  | some boards, some _, first :: rest =>
      if 3 ≤ tier.length ∧ 2 ≤ boards then do
        let earliest ← minBy sealsBefore first rest
        return some (decide (row.symbol = earliest.symbol))
      else .ok (some false)
  | some _, some _, [] => .ok (some false)
  | _, _, _ => .ok none

/-- The roles beside the leader of the theme. -/
structure Places where
  frontRow : Option Bool
  backRow : Option Bool
  assist : Option Bool

def placeValues (leader : Option RoleRow) : Except RoleError Places :=
  match leader, row.seal with
  | some leader, some sealed => do
      let boards ← present row.boards
      let leaderBoards ← present leader.boards
      let frontRow ← andAlso (decide (boards < leaderBoards)) ((present leader.seal).map (fun first => decide (sealed < first)))
      let backRow ← andAlso (decide (boards < leaderBoards)) ((present leader.seal).map (fun first => decide (first < sealed)))
      let assist ← andAlso (decide (boards = 1 ∧ 2 ≤ leaderBoards))
        ((present leader.seal).map (fun first => decide (first ≤ sealed ∧ sealed - first ≤ 1800)))
      return { frontRow := some frontRow, backRow := some backRow, assist := some assist }
  | _, _ => .ok { frontRow := none, backRow := none, assist := none }

def soleHighBoardValue (tier : List RoleRow) : Option Bool :=
  row.boards.map (fun boards => decide (3 ≤ boards) && decide (tier.length = 1))

/-- `1`, `2` or `3+`. -/
def rung (boards : ℚ) : ℕ := if boards = 1 then 1 else if boards = 2 then 2 else 3

def ladderFullValue : Except RoleError (Option Bool) := do
  let rungs ← theme.mapM (fun item => do return rung (← present item.boards))
  if noSector sector ∨ theme = [] then return none
  else return some (rungs.contains 1 && rungs.contains 2 && rungs.contains 3)

/-! ## The roles that look back -/

/-- The roles against yesterday's leader of the theme. -/
structure LeaderRoles where
  kaweiLeader : Option Bool
  leaderSwitch : Option Bool

def leaderRoles (leader : Option RoleRow) (theme : List RoleRow) (priorRows : Option (List RoleRow)) :
    Except RoleError LeaderRoles :=
  match priorRows with
  | none => .ok { kaweiLeader := none, leaderSwitch := none }
  | some priorRows => do
      let priorLeader ← themeLeader priorRows row.sector
      if noSector row.sector then return { kaweiLeader := none, leaderSwitch := none }
      else
        match priorLeader with
        | none => return { kaweiLeader := some false, leaderSwitch := some false }
        | some priorLeader => do
            if (← present priorLeader.boards) < 2 then return { kaweiLeader := some false, leaderSwitch := some false }
            else
              let priorLeaderToday := rowFor rows priorLeader.symbol
              let kaweiLeader ←
                match priorLeaderToday, row.seal with
                | some today, some sealed =>
                    andAlso (decide (row.symbol ≠ priorLeader.symbol)) ((present today.seal).map (fun other => decide (sealed < other)))
                | _, _ => .ok false
              let leaderSwitch := decide (leader.map (·.symbol) = some row.symbol) && priorLeaderToday.isNone && decide (2 ≤ theme.length)
              return { kaweiLeader := some kaweiLeader, leaderSwitch := some leaderSwitch }

/-- The roles against the stock's own row of yesterday. -/
structure OwnRoles where
  weakToStrong : Option Bool
  divergenceToConsensus : Option Bool
  consensusToDivergence : Option Bool

/-- Sealed from 13:00 on, opened again, or sealed with less than twenty million. -/
def weak (prior : RoleRow) : Bool :=
  (match prior.seal with
    | none => false
    | some sealed => decide (13 * 3600 ≤ sealed)) ||
  truthyNumber prior.reopened ||
  (match prior.sealMoney with
    | none => false
    | some money => decide (money < 20000000))

def ownRoles (prior : Option RoleRow) : OwnRoles :=
  match prior with
  | none => { weakToStrong := none, divergenceToConsensus := none, consensusToDivergence := none }
  | some prior =>
      { weakToStrong :=
          match row.seal, row.boards with
          | some sealed, some boards => some (decide (2 ≤ boards) && weak prior && decide (sealed ≤ 9 * 3600 + 45 * 60))
          | _, _ => none
        divergenceToConsensus :=
          row.oneWord.map (fun oneWord =>
            (truthyNumber prior.reopened ||
              match prior.vr with
              | none => false
              | some vr => decide (2 ≤ vr)) && oneWord)
        consensusToDivergence :=
          match row.oneWord, prior.oneWord with
          | some oneWord, some before => some (before && !oneWord)
          | _, _ => none }

/-- A streak of two boards or more that ended `index` sessions ago, and a first board today. -/
def reboundCandidate (boards : ℚ) (histories : List (List RoleRow)) (index : ℕ) : Except RoleError Bool :=
  match rowFor (histories.getD index []) row.symbol with
  | none => .ok false
  | some before => do
      if (← present before.boards) < 2 then return false
      else
        let absent := (histories.take index).all (fun history => (rowFor history row.symbol).isNone)
        return decide (boards = 1) && absent

/-- `_rebound_value`: of the last three readings, all complete. -/
def reboundValue : Except RoleError (Option Bool) :=
  match row.boards with
  | none => .ok none
  | some boards =>
      if previous.length < 3 then .ok none
      else
        match (previous.take 3).mapM completeRows with
        | none => .ok none
        | some histories => do
            let candidates ← [2, 3].mapM (fun lag => reboundCandidate row boards histories (lag - 1))
            return some (candidates.any id)

/-! ## All roles of a row -/

structure RoleValues where
  tierFirst : Option Bool
  places : Places
  soleHighBoard : Option Bool
  ladderFull : Option Bool
  leaders : LeaderRoles
  own : OwnRoles
  reboundBoard : Option Bool

def roleValues : Except RoleError RoleValues := do
  let theme := themeOf rows row.sector
  let tier := rows.filter (fun item => decide (item.boards = row.boards))
  let leader ← themeLeader rows row.sector
  let tierFirst ← tierFirstValue row tier
  let places ← placeValues row leader
  let ladderFull ← ladderFullValue row.sector theme
  let priorRows := completeRows (previous.headD none)
  let leaders ← leaderRoles row rows leader theme priorRows
  let prior := priorRows.bind (fun rows => rowFor rows row.symbol)
  let reboundBoard ← reboundValue row previous
  return { tierFirst := tierFirst, places := places, soleHighBoard := soleHighBoardValue row tier, ladderFull := ladderFull
           leaders := leaders, own := ownRoles row prior, reboundBoard := reboundBoard }

/-- The value under a key of `_ladder_conditions`. -/
def RoleValues.state (values : RoleValues) : List (String × Option Bool) :=
  [("tier_first", values.tierFirst), ("front_row", values.places.frontRow), ("kawei_leader", values.leaders.kaweiLeader),
    ("leader_switch", values.leaders.leaderSwitch), ("assist", values.places.assist), ("back_row", values.places.backRow),
    ("sole_high_board", values.soleHighBoard), ("ladder_full", values.ladderFull), ("weak_to_strong", values.own.weakToStrong),
    ("divergence_to_consensus", values.own.divergenceToConsensus),
    ("consensus_to_divergence", values.own.consensusToDivergence), ("rebound_board", values.reboundBoard)]

/-- A row with the states of its roles. -/
structure LadderRow where
  row : RoleRow
  flags : List String
  unknown : List String

def ladderRow (values : RoleValues) : LadderRow where
  row := row
  flags := (values.state.filter (fun entry => decide (entry.2 = some true))).map Prod.fst
  unknown := (values.state.filter (fun entry => decide (entry.2 = none))).map Prod.fst

/-- `evaluate_ladder_roles`: the roles are kept by symbol. -/
def evaluateLadderRoles : Except RoleError (List LadderRow) := do
  let roles ← rows.foldlM (fun roles row => do return Dict.set roles row.symbol (← roleValues row rows previous))
    ([] : List (String × RoleValues))
  return rows.filterMap (fun row => (roles.lookup row.symbol).map (ladderRow row))

end TradingHarness
