import Mathlib.Data.List.Sort
import Mathlib.Data.Rat.Defs
import Mathlib.Algebra.Order.Ring.Rat
import TradingHarness.Library.Pairing
import TradingHarness.Relay.DeliveryCheck
import TradingHarness.Relay.GroupSync

set_option autoImplicit false

/-! # The history of a group under its ledger

`history-bundle.mjs`: an export lays the rows of the ledger over the history of a group. A message that the ledger
has under its official id is known in the history by its content and its time. -/

namespace TradingHarness

/-! ## Rows -/

inductive BundleBlock (ρ : Type)
  | text (text : List Char)
  | image (ref : ρ)

/-- A row of the ledger or of the history. -/
structure BundleRow (μ : Type) where
  sourceMessageId : List Char
  sourceCreateTime : ℚ
  message : μ
  deriving DecidableEq

def BundleBlock.text? {ρ : Type} : BundleBlock ρ → Option (List Char)
  | .text content => some content
  | .image _ => none

def entryImageCount {ρ : Type} (blocks : List (BundleBlock ρ)) : ℕ :=
  (blocks.filter (fun block => block.text?.isNone)).length

/-- `replace(/\s+/gu, ' ')` -/
def collapseSpace : List Char → List Char
  | [] => []
  | char :: rest =>
    if isJsSpace char then
      if rest.head?.any isJsSpace then collapseSpace rest else ' ' :: collapseSpace rest
    else char :: collapseSpace rest

/-- What two rows of one message have in common. -/
structure Comparable where
  text : List Char
  images : ℕ
  deriving DecidableEq

section Merge

variable {μ ρ : Type} (bundleEntry : BundleRow μ → List (BundleBlock ρ)) (localeLe : List Char → List Char → Bool)

def comparable (row : BundleRow μ) : Comparable :=
  ⟨trimJs (collapseSpace (List.intercalate ['\n'] ((bundleEntry row).filterMap BundleBlock.text?))),
    entryImageCount (bundleEntry row)⟩

/-- The times that `officialEra` has under a key. -/
def officialTimes (ledgerRows : List (BundleRow μ)) (key : Comparable) : List ℚ :=
  (ledgerRows.filter (fun row =>
    !isNumericId row.sourceMessageId && decide (comparable bundleEntry row = key))).map BundleRow.sourceCreateTime

def twinWindow : ℚ := 3000

def hasOfficialTwin (ledgerRows : List (BundleRow μ)) (row : BundleRow μ) : Bool :=
  (officialTimes bundleEntry ledgerRows (comparable bundleEntry row)).any (fun time =>
    decide (|time - row.sourceCreateTime| ≤ twinWindow))

/-- The rows of the ledger that stay. -/
def keptLedger (ledgerRows : List (BundleRow μ)) : List (BundleRow μ) :=
  ledgerRows.filter (fun row =>
    !isNumericId row.sourceMessageId || !hasOfficialTwin bundleEntry ledgerRows row)

def droppedIds (ledgerRows : List (BundleRow μ)) : List (List Char) :=
  (ledgerRows.filter (fun row =>
    isNumericId row.sourceMessageId && hasOfficialTwin bundleEntry ledgerRows row)).map BundleRow.sourceMessageId

/-- The loop over the history: the rows it adds, behind the ids that were there before. -/
def addedHistory (ledgerRows : List (BundleRow μ)) (byId : List (List Char)) :
    List (BundleRow μ) → List (BundleRow μ)
  | [] => []
  | row :: rest =>
    if byId.contains row.sourceMessageId ∨ (droppedIds bundleEntry ledgerRows).contains row.sourceMessageId
        ∨ hasOfficialTwin bundleEntry ledgerRows row = true then addedHistory ledgerRows byId rest
    else row :: addedHistory ledgerRows (row.sourceMessageId :: byId) rest

structure MergedHistory (μ : Type) where
  rows : List (BundleRow μ)
  fromHistoryOnly : ℕ
  fromLedger : ℕ

/-- By time, and by id where times are equal. -/
def sortMerged (rows : List (BundleRow μ)) : List (BundleRow μ) :=
  (rows.insertionSort (fun left right => localeLe left.sourceMessageId right.sourceMessageId = true)).insertionSort
    (fun left right => left.sourceCreateTime ≤ right.sourceCreateTime)

def mergeHistoryRows (ledgerRows historyRows : List (BundleRow μ)) : MergedHistory μ :=
  let ledger := keptLedger bundleEntry ledgerRows
  let added := addedHistory bundleEntry ledgerRows (ledger.map BundleRow.sourceMessageId) historyRows
  ⟨sortMerged localeLe (ledger ++ added), added.length, ledger.length⟩

/-! ## Who stands for whom -/

/-- The official row has the content of the row, within three seconds of it. -/
def IsTwin (ledgerRows : List (BundleRow μ)) (official row : BundleRow μ) : Prop :=
  official ∈ ledgerRows ∧ isNumericId official.sourceMessageId = false
    ∧ comparable bundleEntry official = comparable bundleEntry row
    ∧ |official.sourceCreateTime - row.sourceCreateTime| ≤ twinWindow

/-- The row with this id is the ledger's, or the history's where the ledger has none. -/
def RowOf (ledgerRows historyRows : List (BundleRow μ)) (id : List Char) (row : BundleRow μ) : Prop :=
  row.sourceMessageId = id
    ∧ (row ∈ ledgerRows ∨ row ∈ historyRows ∧ id ∉ ledgerRows.map BundleRow.sourceMessageId)

/-- The official row is the twin of a row with this id. -/
def StandsFor (ledgerRows historyRows : List (BundleRow μ)) (id : List Char) (official : BundleRow μ) : Prop :=
  ∃ row, RowOf ledgerRows historyRows id row ∧ IsTwin bundleEntry ledgerRows official row

/-- Every row with this id has a twin, and none is an official row of the ledger. -/
def Doubled (ledgerRows historyRows : List (BundleRow μ)) (id : List Char) : Prop :=
  (∃ row, RowOf ledgerRows historyRows id row) ∧
    ∀ row, RowOf ledgerRows historyRows id row →
      (∃ official, IsTwin bundleEntry ledgerRows official row)
        ∧ (row ∈ ledgerRows → isNumericId row.sourceMessageId = true)

/-- The ids that the output does not have. -/
def lostIds (ledgerRows historyRows rows : List (BundleRow μ)) : Set (List Char) :=
  {id | (∃ row, RowOf ledgerRows historyRows id row) ∧ id ∉ rows.map BundleRow.sourceMessageId}

/-- No message is lost: one that the output does not have has an official row that stands for it alone. -/
structure LosesNothing (ledgerRows historyRows : List (BundleRow μ)) (merged : MergedHistory μ) : Prop where
  official : ∀ row ∈ ledgerRows, isNumericId row.sourceMessageId = false → row ∈ merged.rows
  ledgerWins : ∀ row ∈ ledgerRows, row.sourceMessageId ∈ merged.rows.map BundleRow.sourceMessageId →
    row ∈ merged.rows
  nothingNew : ∀ row ∈ merged.rows, RowOf ledgerRows historyRows row.sourceMessageId row
  paired : Pairing.Pairable (lostIds ledgerRows historyRows merged.rows)
    (StandsFor bundleEntry ledgerRows historyRows)
  distinct : (merged.rows.map BundleRow.sourceMessageId).Nodup
  sorted : merged.rows.Pairwise (fun earlier later => earlier.sourceCreateTime ≤ later.sourceCreateTime)
  counted : merged.rows.length = merged.fromLedger + merged.fromHistoryOnly

end Merge

end TradingHarness
