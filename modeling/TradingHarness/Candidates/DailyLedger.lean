import TradingHarness.Library.Keyed
import TradingHarness.Membership.Sectors

set_option autoImplicit false

/-! # The daily candidate ledger

`strategy_daily_candidate_ledger.py`: eight materializers read what each strategy's own tables hold for a date and write
one row for each strategy and symbol into `quant.strategy_daily_candidates`. -/

namespace TradingHarness.Candidates

/-! ## Keys -/

inductive CandidateType
  | baseReady30d
  | baseForming15d
  | freshStart15d
  deriving DecidableEq

inductive FlowDirection
  | inflow
  | outflow
  deriving DecidableEq

/-- The playbooks that are ideas, and those that are only recorded. -/
inductive PlaybookKind
  | relay
  | trend
  | record

inductive IdeaKind
  | relay
  | trend
  deriving DecidableEq

inductive StrategyKey
  | postClose (candidateType : CandidateType)
  | limitPattern
  | tenDayLeaderRotation
  | limitLinkage
  | boardStockMining (direction : FlowDirection)
  | dailyRecommendation
  | teacherReview (kind : IdeaKind)
  | xiaojieLeaderFlow
  | launchRadar
  deriving DecidableEq

/-- The key as the ledger has it. -/
def StrategyKey.text : StrategyKey → String
  | .postClose .baseReady30d => "post_close_base_ready"
  | .postClose .baseForming15d => "post_close_base_forming"
  | .postClose .freshStart15d => "post_close_fresh_start"
  | .limitPattern => "post_close_limit_pattern"
  | .tenDayLeaderRotation => "ten_day_leader_rotation"
  | .limitLinkage => "limit_linkage"
  | .boardStockMining .inflow => "board_stock_mining_inflow"
  | .boardStockMining .outflow => "board_stock_mining_outflow"
  | .dailyRecommendation => "daily_recommendation"
  | .teacherReview .relay => "teacher_review_relay"
  | .teacherReview .trend => "teacher_review_trend"
  | .xiaojieLeaderFlow => "xiaojie_leader_flow"
  | .launchRadar => "launch_radar"

/-- The table that a strategy's candidates come from. -/
def StrategyKey.sourceTable : StrategyKey → String
  | .postClose _ => "post_close_strategy_candidates"
  | .limitPattern => "strategy_pattern_samples"
  | .tenDayLeaderRotation => "ten_day_leader_rotation_candidates"
  | .limitLinkage => "intraday_limit_linkage_candidates"
  | .boardStockMining _ => "intraday_board_stock_mining_candidates"
  | .dailyRecommendation => "recommendations"
  | .teacherReview _ => "raw_market_observations"
  | .xiaojieLeaderFlow => "xiaojie_leader_flow_observations"
  | .launchRadar => "xiaojie_leader_flow_observations"

/-! ## The liquidity screen -/

structure Liquidity where
  eligible : Bool
  flags : List String
  deriving DecidableEq

/-- The latest fresh bar of a symbol. -/
structure LatestBar where
  close : Option ℚ
  isSuspended : Bool

/-- What the screen reads, as of a date. -/
structure MarketSource where
  medianAmount : Date → String → Option ℚ
  instruments : List (String × Option Date)
  isSt : Date → String → Bool
  latestBar : Date → String → Option LatestBar

def liquidityEligibility (medianDailyAmount latestPrice : Option ℚ) (listDate : Option Date) (asOfDate : Date)
    (isSt isSuspended : Bool) : Liquidity :=
  let flags :=
    (if isSuspended then ["suspended"] else []) ++
    (if isSt then ["st_security"] else []) ++
    (match medianDailyAmount with
      | none => ["median_amount_unavailable"]
      | some amount => if amount < 30000000 then ["median_amount_below_floor"] else []) ++
    (match latestPrice with
      | none => ["price_unavailable"]
      | some price => if price < 3 then ["price_below_floor"] else []) ++
    (match listDate with
      | none => ["list_date_unavailable"]
      | some date => if asOfDate - date < 60 then ["recently_listed"] else [])
  ⟨flags.isEmpty, flags⟩

/-- `_liquidity_context`, read for one of the symbols. -/
def liquidityOf (market : MarketSource) (symbols : List String) (asOfDate : Date) (symbol : String) : Liquidity :=
  if symbols.contains symbol then
    let bar := market.latestBar asOfDate symbol
    liquidityEligibility (market.medianAmount asOfDate symbol) (bar.bind LatestBar.close)
      ((market.instruments.find? (fun instrument => instrument.1 == symbol)).bind Prod.snd) asOfDate
      (market.isSt asOfDate symbol) (bar.any LatestBar.isSuspended)
  else ⟨false, ["liquidity_context_missing"]⟩

/-! ## Sources -/

structure PostCloseCandidate where
  runId : String
  symbol : String
  rank : ℤ
  score : ℚ
  candidateType : CandidateType

structure PatternSample where
  runId : String
  symbol : String
  rank : ℤ
  reviewScore : Option ℚ

structure LeaderRotationCandidate where
  runId : String
  symbol : String
  boardRank : ℤ
  tenDayReturnPct : Option ℚ

structure LinkageRun where
  linkageRunId : String
  tradeDate : Date
  observedAt : Timestamp

structure LinkageCandidate where
  linkageRunId : String
  symbol : String
  rank : ℤ
  score : ℚ

structure MiningRun where
  miningRunId : String
  observedAt : Timestamp

structure MiningCandidate where
  miningRunId : String
  symbol : String
  rank : ℤ
  score : ℚ
  direction : FlowDirection

structure Recommendation where
  runId : String
  symbol : String
  rank : ℤ
  score : ℚ
  direction : ℤ

structure PlannedStock where
  code : String
  tsCode : String := ""
  playbook : String
  stance : String
  group : Option String := none

structure ReviewPack where
  packId : String
  reviewDate : Date
  analystId : String
  supersedes : List String := []
  stocks : List PlannedStock

structure FlowObservation where
  tradingDate : Date
  symbol : String
  mode : String
  decision : String
  firstSeenAt : Timestamp
  observationCount : ℤ
  alertedAt : Option Timestamp := none

/-- The source tables, with the date of each run. A join of a run finds what carries its id. -/
structure Sources where
  postCloseRuns : List (String × Date) := []
  postClose : List PostCloseCandidate := []
  patternRuns : List (String × Date) := []
  patterns : List PatternSample := []
  rotationRuns : List (String × Date) := []
  rotations : List LeaderRotationCandidate := []
  linkageRuns : List LinkageRun := []
  linkages : List LinkageCandidate := []
  miningRuns : List MiningRun := []
  mined : List MiningCandidate := []
  recommendationRuns : List (String × Date) := []
  recommendations : List Recommendation := []
  packs : List ReviewPack := []
  flows : List FlowObservation := []
  market : MarketSource

/-! ## Rows -/

inductive Evidence
  | none
  | direction (direction : ℤ)
  | plan (packId playbook stance : String) (group : Option String) (analystId : String)
  | modes (modes : List String) (firstSeenAt : Timestamp) (alerted : Bool)
  deriving DecidableEq

/-- A row that a materializer writes. -/
structure CandidateRow where
  strategyKey : StrategyKey
  asOfDate : Date
  symbol : String
  sourceTable : String
  sourceRunId : Option String
  rank : Option ℤ
  rawScore : Option ℚ
  scoreScale : String
  liquidity : Liquidity
  evidence : Evidence := .none
  deriving DecidableEq

/-- A row of `quant.strategy_daily_candidates`. -/
structure LedgerRow where
  row : CandidateRow
  materializedAt : Timestamp
  deriving DecidableEq

def CandidateRow.key (row : CandidateRow) : StrategyKey × Date × String := (row.strategyKey, row.asOfDate, row.symbol)

def LedgerRow.key (stored : LedgerRow) : StrategyKey × Date × String := stored.row.key

variable (sources : Sources) (asOfDate : Date) (now : Timestamp) (ledger : List LedgerRow)

/-- `DO UPDATE SET`: all but the key and the source table. -/
def withCandidate (row : CandidateRow) (stored : LedgerRow) : LedgerRow where
  row := { stored.row with
    sourceRunId := row.sourceRunId
    rank := row.rank
    rawScore := row.rawScore
    scoreScale := row.scoreScale
    liquidity := row.liquidity
    evidence := row.evidence }
  materializedAt := now

def upsertCandidate (row : CandidateRow) : List LedgerRow :=
  match Keyed.find LedgerRow.key row.key ledger with
  | none => ledger ++ [⟨row, now⟩]
  | some _ => Keyed.update LedgerRow.key row.key (withCandidate now row) ledger

def upsertCandidates (rows : List CandidateRow) (ledger : List LedgerRow) : List LedgerRow :=
  rows.foldl (upsertCandidate now) ledger

/-! ## Materializers -/

def runOn (runs : List (String × Date)) (asOfDate : Date) (runId : String) : Bool := runs.contains (runId, asOfDate)

def materializePostCloseCandidates : List CandidateRow :=
  let candidates := sources.postClose.filter (fun row => runOn sources.postCloseRuns asOfDate row.runId)
  candidates.map (fun row => {
    strategyKey := .postClose row.candidateType
    asOfDate := asOfDate
    symbol := row.symbol
    sourceTable := "post_close_strategy_candidates"
    sourceRunId := some row.runId
    rank := some row.rank
    rawScore := some row.score
    scoreScale := "bounded_0_100"
    liquidity := liquidityOf sources.market (candidates.map PostCloseCandidate.symbol) asOfDate row.symbol })

def materializePatternCandidates : List CandidateRow :=
  let candidates := sources.patterns.filter (fun row =>
    runOn sources.patternRuns asOfDate row.runId && row.reviewScore.isSome)
  candidates.map (fun row => {
    strategyKey := .limitPattern
    asOfDate := asOfDate
    symbol := row.symbol
    sourceTable := "strategy_pattern_samples"
    sourceRunId := some row.runId
    rank := some row.rank
    rawScore := row.reviewScore
    scoreScale := "bounded_0_100"
    liquidity := liquidityOf sources.market (candidates.map PatternSample.symbol) asOfDate row.symbol })

def materializeTenDayLeaderCandidates : List CandidateRow :=
  let candidates := sources.rotations.filter (fun row => runOn sources.rotationRuns asOfDate row.runId)
  candidates.map (fun row => {
    strategyKey := .tenDayLeaderRotation
    asOfDate := asOfDate
    symbol := row.symbol
    sourceTable := "ten_day_leader_rotation_candidates"
    sourceRunId := some row.runId
    rank := some row.boardRank
    rawScore := row.tenDayReturnPct
    scoreScale := "percent_return_unbounded"
    liquidity := liquidityOf sources.market (candidates.map LeaderRotationCandidate.symbol) asOfDate row.symbol })

/-- Only the latest run of the day counts. -/
def latestLinkageRun : Option LinkageRun :=
  (sources.linkageRuns.filter (fun run => decide (run.tradeDate = asOfDate))).maxOn? LinkageRun.observedAt

def materializeLimitLinkageCandidates : List CandidateRow :=
  match latestLinkageRun sources asOfDate with
  | none => []
  | some run =>
    let candidates := sources.linkages.filter (fun row => row.linkageRunId == run.linkageRunId)
    candidates.map (fun row => {
      strategyKey := .limitLinkage
      asOfDate := asOfDate
      symbol := row.symbol
      sourceTable := "intraday_limit_linkage_candidates"
      sourceRunId := some run.linkageRunId
      rank := some row.rank
      rawScore := some row.score
      scoreScale := "unbounded_positive"
      liquidity := liquidityOf sources.market (candidates.map LinkageCandidate.symbol) asOfDate row.symbol })

def latestMiningRun : Option MiningRun :=
  (sources.miningRuns.filter (fun run => decide (shanghaiDate run.observedAt = asOfDate))).maxOn? MiningRun.observedAt

def materializeBoardStockMiningCandidates : List CandidateRow :=
  match latestMiningRun sources asOfDate with
  | none => []
  | some run =>
    let candidates := sources.mined.filter (fun row => row.miningRunId == run.miningRunId)
    candidates.map (fun row => {
      strategyKey := .boardStockMining row.direction
      asOfDate := asOfDate
      symbol := row.symbol
      sourceTable := "intraday_board_stock_mining_candidates"
      sourceRunId := some run.miningRunId
      rank := some row.rank
      rawScore := some row.score
      scoreScale := "unbounded_positive"
      liquidity := liquidityOf sources.market (candidates.map MiningCandidate.symbol) asOfDate row.symbol })

def materializeRecommendationCandidates : List CandidateRow :=
  let candidates := sources.recommendations.filter (fun row =>
    runOn sources.recommendationRuns asOfDate row.runId && row.direction != 0)
  candidates.map (fun row => {
    strategyKey := .dailyRecommendation
    asOfDate := asOfDate
    symbol := row.symbol
    sourceTable := "recommendations"
    sourceRunId := some row.runId
    rank := some row.rank
    rawScore := some row.score
    scoreScale := "bounded_0_100"
    liquidity := liquidityOf sources.market (candidates.map Recommendation.symbol) asOfDate row.symbol
    evidence := .direction row.direction })

/-! ## Reviews -/

/-- `playbook_kind`, over the catalogue. -/
def playbookKind (playbook : String) : PlaybookKind :=
  if ["relay_one_word", "relay_acceleration", "relay_expect_touch", "relay_race", "relay_fast_seal", "relay_break_reseal",
      "relay_news_conditional", "sympathy_follow"].contains playbook then .relay
  else if ["trend_pullback_restart", "leader_benchmark_pullback", "ma5_reclaim_or_divergence", "trend_continuation",
      "prior_high_breakout", "platform_breakout", "ma10_second_wave", "double_bottom_platform",
      "ma60_reclaim"].contains playbook then .trend
  else .record

def tsCode (code : String) : String :=
  match code.toList with
  | '6' :: _ => code ++ ".SH"
  | '9' :: _ => code ++ ".SH"
  | '4' :: _ => code ++ ".BJ"
  | '8' :: _ => code ++ ".BJ"
  | _ => code ++ ".SZ"

/-- A stock of a pack as an idea: its kind and symbol, unless it is only recorded or has no code. -/
def ideaOf (stock : PlannedStock) : Option (IdeaKind × String) :=
  let symbol := (if stock.tsCode != "" then stock.tsCode else tsCode stock.code).toUpper
  if stock.code == "" then none
  else
    match playbookKind stock.playbook with
    | .record => none
    | .relay => some (.relay, symbol)
    | .trend => some (.trend, symbol)

structure Idea where
  kind : IdeaKind
  symbol : String
  rank : ℤ
  evidence : Evidence

def ideasOfPack (pack : ReviewPack) : List Idea :=
  pack.stocks.zipIdx.filterMap (fun stock => (ideaOf stock.1).map (fun idea =>
    ⟨idea.1, idea.2, stock.2 + 1, .plan pack.packId stock.1.playbook stock.1.stance stock.1.group pack.analystId⟩))

/-- The ideas of packs that no other pack of the day supersedes, each of the first that has it. -/
def ideasOn : List Idea :=
  let packs := sources.packs.filter (fun pack => decide (pack.reviewDate = asOfDate))
  let superseded := packs.flatMap ReviewPack.supersedes
  ((packs.filter (fun pack => !superseded.contains pack.packId)).flatMap ideasOfPack).foldl
    (fun ideas idea =>
      if ideas.any (fun known => decide (known.kind = idea.kind) && known.symbol == idea.symbol) then ideas
      else ideas ++ [idea]) []

/-- By key, then by symbol. -/
def ideaLe (idea other : Idea) : Bool :=
  let key := (StrategyKey.teacherReview idea.kind).text
  let otherKey := (StrategyKey.teacherReview other.kind).text
  if key == otherKey then textLe idea.symbol.toList other.symbol.toList else textLe key.toList otherKey.toList

def materializeTeacherReviewCandidates : List CandidateRow :=
  let ideas := ideasOn sources asOfDate
  (ideas.insertionSort (fun idea other => ideaLe idea other = true)).map (fun idea => {
    strategyKey := .teacherReview idea.kind
    asOfDate := asOfDate
    symbol := idea.symbol
    sourceTable := "raw_market_observations"
    sourceRunId := none
    rank := some idea.rank
    rawScore := none
    scoreScale := "unscored_plan"
    liquidity := liquidityOf sources.market (ideas.map Idea.symbol) asOfDate idea.symbol
    evidence := idea.evidence })

/-! ## Leader flow -/

def flowKey (observation : FlowObservation) : StrategyKey :=
  if observation.mode == "launch_radar" then .launchRadar else .xiaojieLeaderFlow

/-- A group of detections: one stock of one strategy. -/
structure Detection where
  symbol : String
  strategyKey : StrategyKey
  modes : List String
  firstSeenAt : Timestamp
  observations : ℤ
  alerted : Bool

def detectionOf (observations : List FlowObservation) (group : String × StrategyKey) : Detection :=
  let members := observations.filter (fun row => row.symbol == group.1 && decide (flowKey row = group.2))
  ⟨group.1, group.2,
    (members.map FlowObservation.mode).eraseDups.insertionSort (fun mode other => textLe mode.toList other.toList = true),
    ((members.map FlowObservation.firstSeenAt).min?).getD 0,
    (members.map FlowObservation.observationCount).sum, members.any (fun row => row.alertedAt.isSome)⟩

def detectionsOn : List Detection :=
  let observations := sources.flows.filter (fun row =>
    decide (row.tradingDate = asOfDate) && row.decision == "research_candidate")
  ((observations.map (fun row => (row.symbol, flowKey row))).eraseDups.map (detectionOf observations)).insertionSort
    (fun detection other => detection.firstSeenAt ≤ other.firstSeenAt)

/-- The detections in order with their ranks in their own strategy. -/
def rankDetections : List Detection → List (Detection × ℤ) → List (Detection × ℤ)
  | [], ranked => ranked
  | detection :: rest, ranked =>
    let rank := (ranked.countP (fun known => decide (known.1.strategyKey = detection.strategyKey)) : ℤ) + 1
    rankDetections rest (ranked ++ [(detection, rank)])

def materializeLeaderFlowCandidates : List CandidateRow :=
  let detections := detectionsOn sources asOfDate
  (rankDetections detections []).map (fun ranked => {
    strategyKey := ranked.1.strategyKey
    asOfDate := asOfDate
    symbol := ranked.1.symbol
    sourceTable := "xiaojie_leader_flow_observations"
    sourceRunId := none
    rank := some ranked.2
    rawScore := some ranked.1.observations
    scoreScale := "scan_observation_count"
    liquidity := liquidityOf sources.market (detections.map Detection.symbol) asOfDate ranked.1.symbol
    evidence := .modes ranked.1.modes ranked.1.firstSeenAt ranked.1.alerted })

/-! ## Runs -/

def materializers : List (Sources → Date → List CandidateRow) :=
  [materializePostCloseCandidates, materializePatternCandidates, materializeTenDayLeaderCandidates,
    materializeLimitLinkageCandidates, materializeBoardStockMiningCandidates, materializeRecommendationCandidates,
    materializeTeacherReviewCandidates, materializeLeaderFlowCandidates]

/-- All rows that the materializers write for a date, in their order. -/
def proposedRows : List CandidateRow :=
  materializers.flatMap (fun materializer => materializer sources asOfDate)

/-- `materialize_ledger` in one transaction: it is rolled back where a symbol is no instrument. -/
def materializeLedger :
    Except String (List LedgerRow) :=
  let rows := proposedRows sources asOfDate
  if rows.all (fun row => sources.market.instruments.any (fun instrument => instrument.1 == row.symbol)) then
    .ok (upsertCandidates now rows ledger)
  else .error "strategy_daily_candidates_symbol_fkey"

structure LedgerWorld where
  sources : Sources
  ledger : List LedgerRow := []

inductive LedgerOp
  | change (sources : Sources)
  | materialize (asOfDate : Date) (now : Timestamp)

def ledgerStep (op : LedgerOp) (world : LedgerWorld) : LedgerWorld :=
  match op with
  | .change sources => { world with sources := sources }
  | .materialize asOfDate now =>
    match materializeLedger world.sources asOfDate now world.ledger with
    | .error _ => world
    | .ok ledger => { world with ledger := ledger }

end TradingHarness.Candidates
