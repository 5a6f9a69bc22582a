import Mathlib.Data.List.Infix
import TradingHarness.Library.Rounding
import TradingHarness.Paper.Execution

set_option autoImplicit false

/-! # Signal episodes

`ensure_signal_episode` and `clear_stale_signal_episodes` (`episode_lifecycle.py`) on the rows of
`quant.intraday_signal_episodes`: an observation joins the active episode of its key or opens a new one,
and a scan clears the episodes of its symbols that were not observed lately. -/

namespace TradingHarness

/-- `EPISODE_CONTINUITY`, in microseconds. -/
def episodeContinuity : ℤ := 5 * 60 * 1000000

/-! ## Signals -/

/-- What is read of a signal and of its `conditions`. -/
structure Signal where
  symbol : Option String := none
  signalKey : Option String := none
  signalType : Option String := none
  strategyVersion : Option String := none
  stageUpgrade : Bool := false
  setup : Option String := none
  price : Option ℚ := none
  pctChange : Option ℚ := none
  volumeRatio : Option ℚ := none
  turnoverRate : Option ℚ := none
  mainNetInflow : Option ℚ := none
  /-- `policy_gate.market_state` -/
  marketState : Option String := none

/-- The markers of a signal key, in order, with the family they stand for. -/
def familyMarkers : List (String × String) :=
  [("upside_acceptance_eac", "upside_breakout_eac"),
    ("upside_breakout_eac", "upside_breakout_eac"),
    ("deep_reversal", "deep_reversal"),
    ("green_reclaim", "green_reclaim"),
    ("sector_surge", "sector_surge"),
    ("extreme_flow", "extreme_flow"),
    ("price_extension", "price_extension"),
    ("leader_burst", "leader_burst"),
    ("volume_anomaly", "volume_anomaly")]

/-- `part in text`. -/
def textContains (text part : String) : Bool := decide (part.toList <:+: text.toList)

/-- `strategy_family`: the family of the first marker in the key, else the key's third part. -/
def strategyFamily (signalKey : String) : String :=
  match familyMarkers.find? (fun marker => textContains signalKey marker.1) with
  | some marker => marker.2
  | none => firstText [((signalKey.splitOn ":")[2]?).getD "", signalKey, "unknown"]

variable (signal : Signal) (observedAt : Timestamp) (symbol : Option String)

def signalDirection : ℤ :=
  if firstText [signal.signalType.getD "", "watch"] ∈ ["reduce", "exit"] then -1 else 1

inductive Stage
  | acceptance
  | reclaim
  | failure
  | expansion
  | detected

def signalStage : Stage :=
  let setup := signal.setup.getD ""
  if textContains setup "acceptance" || signal.stageUpgrade then .acceptance
  else if textContains setup "reclaim" || textContains setup "reversal" then .reclaim
  else if signal.signalType = some "reduce" ∨ signal.signalType = some "exit" then .failure
  else if textContains setup "breakout" || textContains setup "surge" || textContains setup "burst" then
    .expansion
  else .detected

/-- `material_state_payload`. -/
structure MaterialState where
  strategyFamily : String
  direction : ℤ
  stage : Stage
  setup : Option String
  numeric : List (String × ℚ)
  marketState : Option String

/-- A number in its coarse bin, under its name. -/
def binned (name : String) (step : ℚ) (value : Option ℚ) : List (String × ℚ) :=
  match value with
  | none => []
  | some number => [(name, (Rounding.halfEven (number / step) : ℚ) * step)]

def materialStatePayload : MaterialState where
  strategyFamily := strategyFamily (signal.signalKey.getD "")
  direction := signalDirection signal
  stage := signalStage signal
  setup := signal.setup
  numeric := binned "price" (5 / 1000) signal.price ++ binned "pct_change" 1 signal.pctChange ++
    binned "volume_ratio" (1 / 2) signal.volumeRatio ++
    binned "turnover_rate" (1 / 2) signal.turnoverRate ++
    binned "main_net_inflow" 1 signal.mainNetInflow
  marketState := signal.marketState

/-! ## The table -/

/-- The columns an active episode is looked up by. -/
structure EpisodeKey where
  symbol : String
  strategyKey : String
  strategyVersion : String
  direction : ℤ
  sessionDate : Date
  deriving DecidableEq

inductive EpisodeState
  | active
  | cleared
  deriving DecidableEq

inductive ClearReason
  | continuityWindowElapsed
  | signalConditionCleared

/-- A row of `quant.intraday_signal_episodes`. -/
structure Episode where
  episodeId : ℕ
  key : EpisodeKey
  state : EpisodeState
  stage : Stage
  materialStateHash : String
  firstObservedAt : Timestamp
  lastObservedAt : Timestamp
  clearAt : Option Timestamp
  clearReason : Option ClearReason
  rearmCount : ℕ
  firstEventState : String
  lastEventState : Option String

variable (digest : MaterialState → String) (table : List Episode)

/-- The active episodes of a key. -/
def activeEpisodes (key : EpisodeKey) : List Episode :=
  table.filter (fun episode => decide (episode.key = key ∧ episode.state = .active))

/-- `ORDER BY last_observed_at DESC LIMIT 1`. -/
def activeEpisode (key : EpisodeKey) : Option Episode :=
  (activeEpisodes table key).maxOn? (·.lastObservedAt)

/-- `UPDATE … WHERE episode_id = …`. -/
def updateEpisode (episodeId : ℕ) (change : Episode → Episode) :
    List Episode :=
  table.map (fun episode => if episode.episodeId = episodeId then change episode else episode)

/-! ## Transitions -/

/-- What `ensure_signal_episode` answers. -/
structure EpisodeAnswer where
  episodeId : ℕ
  materialStateHash : String
  stage : Stage
  state : EpisodeState
  rearm : Bool

/-- The symbol an observation is stored under. -/
def observedSymbol : String :=
  firstText [symbol.getD "", signal.symbol.getD ""]

def episodeKey : EpisodeKey where
  symbol := observedSymbol signal symbol
  strategyKey := strategyFamily (signal.signalKey.getD "")
  strategyVersion := firstText [signal.strategyVersion.getD "", "live-research-contract-v1"]
  direction := signalDirection signal
  sessionDate := shanghaiDate observedAt

/-- A row the database has given a fresh id. -/
def newEpisode (key : EpisodeKey) (stage : Stage) (hash : String)
    (observedAt : Timestamp) (eventState : String) (rearm : Bool) : Episode where
  episodeId := table.length
  key := key
  state := .active
  stage := stage
  materialStateHash := hash
  firstObservedAt := observedAt
  lastObservedAt := observedAt
  clearAt := none
  clearReason := none
  rearmCount := if rearm then 1 else 0
  firstEventState := eventState
  lastEventState := none

/-- The active row an observation joins. -/
def Episode.joined (episode : Episode) (stage : Stage) (hash : String) (observedAt : Timestamp)
    (eventState : String) : Episode :=
  { episode with
    lastObservedAt := observedAt
    stage := stage
    materialStateHash := hash
    lastEventState := some eventState }

def Episode.cleared (episode : Episode) (observedAt : Timestamp) (reason : ClearReason) : Episode :=
  { episode with state := .cleared, clearAt := some observedAt, clearReason := some reason }

/-- `ensure_signal_episode`. `digest` is the SHA-256 of the payload's JSON text. -/
def ensureSignalEpisode (signal : Signal)
    (observedAt : Timestamp) (eventState : String) (symbol : Option String) :
    Except String (EpisodeAnswer × List Episode) :=
  if observedSymbol signal symbol = "" then .error "signal episode requires a symbol"
  else
    let key := episodeKey signal observedAt symbol
    let stage := signalStage signal
    let hash := digest (materialStatePayload signal)
    match activeEpisode table key with
    | some active =>
      if observedAt - active.lastObservedAt ≤ episodeContinuity then
        .ok (⟨active.episodeId, hash, stage, .active, false⟩,
          updateEpisode table active.episodeId (·.joined stage hash observedAt eventState))
      else
        .ok (⟨table.length, hash, stage, .active, true⟩,
          updateEpisode table active.episodeId (·.cleared observedAt .continuityWindowElapsed) ++
            [newEpisode table key stage hash observedAt eventState true])
    | none =>
      .ok (⟨table.length, hash, stage, .active, false⟩,
        table ++ [newEpisode table key stage hash observedAt eventState false])

/-- `clear_stale_signal_episodes`, with the number of rows it cleared. -/
def clearStaleSignalEpisodes (symbols : List String)
    (observedAt : Timestamp) : ℕ × List Episode :=
  let stale (episode : Episode) : Bool :=
    decide (episode.key.symbol ∈ symbols ∧ episode.state = .active ∧
      episode.lastObservedAt < observedAt - episodeContinuity)
  (table.countP stale, table.map (fun episode =>
    if stale episode then episode.cleared observedAt .signalConditionCleared else episode))

/-! ## Runs -/

/-- One call. -/
inductive EpisodeAction
  | observe (signal : Signal) (observedAt : Timestamp) (eventState : String)
      (symbol : Option String)
  | clear (symbols : List String) (observedAt : Timestamp)

/-- The table after a call. A call that raised leaves it as it was. -/
def stepEpisodes :
    EpisodeAction → List Episode
  | .observe signal observedAt eventState symbol =>
      match ensureSignalEpisode digest table signal observedAt eventState symbol with
      | .ok (_, table') => table'
      | .error _ => table
  | .clear symbols observedAt => (clearStaleSignalEpisodes table symbols observedAt).2

/-- The table after a run, from the empty one. -/
def runEpisodes (actions : List EpisodeAction) : List Episode :=
  actions.foldl (stepEpisodes digest) []

end TradingHarness
