import TradingHarness.Tactics.Fills
import TradingHarness.Settlement.Scale
import TradingHarness.Settlement.Meet
import TradingHarness.Tactics.LookAhead
import TradingHarness.Tactics.MovingAverage
import TradingHarness.Tactics.HeldSlots
import TradingHarness.Tactics.Conditions
import TradingHarness.Tactics.LookBack
import TradingHarness.Library.Tables
import TradingHarness.Library.Tally
import TradingHarness.Tactics.Digest
import TradingHarness.Tactics.History
import TradingHarness.Tactics.Folding
import TradingHarness.Paper.Execution
import TradingHarness.Paper.Ledger
import TradingHarness.Runtime.Documents
import TradingHarness.Library.Runs
import TradingHarness.Runtime.Summarise
import TradingHarness.Runtime.Closing
import TradingHarness.Runtime.Window
import TradingHarness.Runtime.Folded
import TradingHarness.Runtime.Again
import TradingHarness.Paper.TPlusOne
import TradingHarness.Library.Greedy
import TradingHarness.Paper.AutoExecution
import TradingHarness.Paper.OneEntry
import TradingHarness.Signals.Episodes
import TradingHarness.Signals.EpisodeRuns
import TradingHarness.Library.Dict
import TradingHarness.Library.Json
import TradingHarness.Minutes.Document
import TradingHarness.Minutes.Columns
import TradingHarness.Minutes.Lossless
import TradingHarness.Library.Wire
import TradingHarness.Tdx.Records
import TradingHarness.Tdx.RoundTrip
import TradingHarness.Library.Bitmap
import TradingHarness.Tdx.MacFields
import TradingHarness.Tdx.MacRows
import TradingHarness.Relay.ProtoWire
import TradingHarness.Relay.WireRoundTrip
import TradingHarness.Library.JsonKeys
import TradingHarness.Library.Lines
import TradingHarness.Spool.Envelope
import TradingHarness.Spool.Segment
import TradingHarness.Library.JsonLines
import TradingHarness.Spool.RoundTrip
import TradingHarness.Transfer.Journal
import TradingHarness.Transfer.Progress
import TradingHarness.Transfer.Atomic
import TradingHarness.Transfer.Delivery
import TradingHarness.Transfer.Schedule
import TradingHarness.Transfer.Convergence
import TradingHarness.Library.Keyed
import TradingHarness.Relay.EventSpool
import TradingHarness.Relay.FailedCounts
import TradingHarness.Relay.Leases
import TradingHarness.Relay.DrainCursor
import TradingHarness.Workflow.KeyedMemo
import TradingHarness.Workflow.SingleFlight
import TradingHarness.Datasources.Rows
import TradingHarness.Datasources.Resolver
import TradingHarness.Datasources.Gates
import TradingHarness.Library.Firsts
import TradingHarness.Datasources.FirstServing
import TradingHarness.Library.Leased
import TradingHarness.Relay.Outboxes
import TradingHarness.Relay.TerminalStates
import TradingHarness.Relay.GroupSync
import TradingHarness.Relay.MissedChecks
import TradingHarness.Relay.DeliveryCheck
import TradingHarness.Relay.OwnCopies
import TradingHarness.Library.Keyset
import TradingHarness.Storage.RawOverflow
import TradingHarness.Storage.ArchiveRuns
import TradingHarness.Storage.ArchiveRounds
import TradingHarness.Library.Spans
import TradingHarness.Membership.Sectors
import TradingHarness.Membership.KnownAt
import TradingHarness.Membership.Refreshes
import TradingHarness.Membership.LastSnapshot
import TradingHarness.Membership.Universe
import TradingHarness.Membership.UniverseRuns
import TradingHarness.Paper.GateLimits
import TradingHarness.Xhs.MediaGuards
import TradingHarness.Xhs.Fenced
import TradingHarness.Library.Windows
import TradingHarness.Relay.SendBudget
import TradingHarness.Xhs.Lanes
import TradingHarness.Xhs.OneLane
import TradingHarness.Candidates.DailyLedger
import TradingHarness.Candidates.LedgerFollows
import TradingHarness.Intraday.Indicators
import TradingHarness.Intraday.SeedFreshness
import TradingHarness.Teacher.Lifecycle
import TradingHarness.Teacher.Roll
import TradingHarness.Teacher.Placing
import TradingHarness.Teacher.Planning
import TradingHarness.Teacher.RollAgain
import TradingHarness.Teacher.SettledAgain
import TradingHarness.Teacher.PlanLife
import TradingHarness.Library.Newest
import TradingHarness.Outcomes.Reviews
import TradingHarness.Outcomes.Changes
import TradingHarness.Outcomes.Evidence
import TradingHarness.Outcomes.SinceAlone
import TradingHarness.Outcomes.Forward
import TradingHarness.Analysts.Archive
import TradingHarness.Analysts.Writes
import TradingHarness.Analysts.History
import TradingHarness.Analysts.OneHistory
import TradingHarness.Analysts.PointInTime
import TradingHarness.Relay.OneTarget
import TradingHarness.Library.Notices
import TradingHarness.Relay.Memberships
import TradingHarness.Relay.OneReminder
import TradingHarness.Teacher.AbsentInputs
import TradingHarness.Teacher.NoAbsentPass
import TradingHarness.Library.Grouped
import TradingHarness.Settlement.Excursions
import TradingHarness.Settlement.Rolls
import TradingHarness.Tactics.Knowledge
import TradingHarness.Tactics.PairsMatch
import TradingHarness.Library.StepUp
import TradingHarness.Tactics.QValues
import TradingHarness.Paper.TripleBarrier
import TradingHarness.Paper.Acceptance
import TradingHarness.Tactics.Roles
import TradingHarness.Tactics.LookBackRoles
import TradingHarness.Intraday.ExchangeTime
import TradingHarness.Intraday.WatchQuotes
import TradingHarness.Intraday.FlowMetrics
import TradingHarness.Intraday.WatchCapture
import TradingHarness.Intraday.OneRowPrice
import TradingHarness.Intraday.SignalRules
import TradingHarness.Intraday.BasketSignals
import TradingHarness.Library.Slots
import TradingHarness.Tdx.BatchQuotes
import TradingHarness.Tdx.Volumes
import TradingHarness.Tdx.KeptQuotes
import TradingHarness.Library.FromNewest
import TradingHarness.Tdx.TickPages
import TradingHarness.Relay.Inbound
import TradingHarness.Relay.InboundDuplicates
import TradingHarness.Executors.Boundary
import TradingHarness.Executors.Release
import TradingHarness.Library.Holes
import TradingHarness.Relay.Positions
import TradingHarness.Relay.PositionGaps
import TradingHarness.Library.Utf8
import TradingHarness.Spool.Recovery
import TradingHarness.Relay.PushFrames
import TradingHarness.Relay.PushEntries
import TradingHarness.Spool.Replay
import TradingHarness.Spool.ReplayProgress
import TradingHarness.Relay.HistoryCovered
import TradingHarness.Bundles.MergedRows
import TradingHarness.Bundles.NoneLost
import TradingHarness.Intraday.OutcomeWindow
import TradingHarness.Intraday.Streaming
import TradingHarness.Datasources.RequestSlots
import TradingHarness.Xhs.LatestSummary
import TradingHarness.Outcomes.OneMeasure
import TradingHarness.Datasources.FactorRule
import TradingHarness.Xhs.Delivery
