import TradingHarness.Library.Chunks
import TradingHarness.Library.Slots
import TradingHarness.Minutes.Document
import TradingHarness.Tdx.MacRows

set_option autoImplicit false

/-! # Batches of quotes

A batch request names securities by market and code, and `parse_batch_quotes` keeps of the answer what is still
to come in the order of the request. Two symbols may stand for one security: a security that was requested
twice has the position of its last slot, and the records between its two slots are passed over. -/

namespace TradingHarness

/-! ## Symbols -/

/-- What a batch raises. -/
inductive BatchError
  | decoding (error : MacError)
  | keyError
  deriving DecidableEq

def BatchError.valueError (text : String) : BatchError := .decoding (.valueError text)

def markets : List (String × ℕ) := [("SZ", 0), ("SH", 1), ("BJ", 2)]

def exchanges : List (ℕ × String) := markets.map (fun entry => (entry.2, entry.1))

/-- `code.isascii() and code.isdigit()`. -/
def isAsciiDigits (code : String) : Prop :=
  code ≠ "" ∧ code.toList.all (fun char => decide ('0' ≤ char) && decide (char ≤ '9')) = true

instance (code : String) : Decidable (isAsciiDigits code) := inferInstanceAs (Decidable (_ ∧ _))

/-- `symbol`: the inverse of `market_code`, where the market has an exchange. -/
def symbolOf (market : ℕ) (code : String) : Option String :=
  (exchanges.lookup market).map (fun exchange => code ++ "." ++ exchange)

section Symbols

-- `str.upper`, and the table of the migrated codes
variable (toUpper : String → String) (oldToNew : List (String × String))

def marketCode (symbol : String) : Except BatchError (ℕ × String) :=
  let (code, exchange) := partitionDot (toUpper symbol)
  match markets.lookup exchange with
  | some market =>
    if code.length ≠ 6 ∨ ¬ isAsciiDigits code then
      .error (.valueError "symbol must be six digits followed by .SH, .SZ or .BJ")
    else if exchange = "BJ" then .ok (market, (oldToNew.lookup code).getD code)
    else .ok (market, code)
  | none => .error (.valueError "symbol must be six digits followed by .SH, .SZ or .BJ")

def requestedStocks (symbols : List String) : Except BatchError (List (ℕ × String)) :=
  if symbols = [] then .error (.valueError "symbols must not be empty")
  else symbols.mapM (marketCode toUpper oldToNew)

end Symbols

/-! ## Answers -/

/-- A decoded row, by the names of its fields. -/
abbrev QuoteRow := List (String × MacValue)

/-- `row["market"], row["symbol"]`, where the row has both. -/
def QuoteRow.returned (row : QuoteRow) : Option (MacValue × MacValue) := do
  let market ← row.lookup "market"
  let symbol ← row.lookup "symbol"
  return (market, symbol)

/-- A requested pair, as a row returns it. -/
def wantedPair (wanted : ℕ × String) : MacValue × MacValue := (.number wanted.1, .text wanted.2)

/-- The loop of `parse_batch_quotes` from the next position on, with `position.get`. -/
def keptQuotes (position : MacValue × MacValue → Option ℕ) : ℕ → List QuoteRow → Except BatchError (List QuoteRow)
  | _, [] => .ok []
  | following, row :: rows =>
    match row.returned with
    | none => .error .keyError
    | some returned =>
      match position returned with
      | none => keptQuotes position following rows
      | some index =>
        if index < following then keptQuotes position following rows
        else do
          let kept ← keptQuotes position (index + 1) rows
          .ok (row :: kept)

def maxBatch : ℕ := 80

section Batches

-- the GB18030 codec with replacement
variable (gb18030 : List UInt8 → String)

def parseBatchQuotes (body : List UInt8) (requested : List (ℕ × String)) :
    Except BatchError (List QuoteRow) :=
  match decodeDynamicResponse gb18030 body with
  | .error error => .error (.decoding error)
  | .ok rows => do
    let kept ← keptQuotes (Slots.slot (requested.map wantedPair)) 0 rows
    if rows ≠ [] ∧ kept = [] then
      .error (.decoding (.tdxMacError ("none of the " ++ toString rows.length ++
        " quote rows answers a requested symbol")))
    else .ok kept

/-- `TdxMacClient.batch_quotes`, by the answers to its requests. -/
def batchQuotes (answer : ℕ → List UInt8) (stocks : List (ℕ × String)) : Except BatchError (List QuoteRow) := do
  let pages ← (Chunks.chunks maxBatch stocks).zipIdx.mapM
    (fun chunk => parseBatchQuotes gb18030 (answer chunk.2) chunk.1)
  return pages.flatten

end Batches

/-! ## Evidence -/

/-- A row of an adapter: its full symbol, its other fields, and the symbol it was requested by where that is
    another. -/
structure EvidenceRow (ρ : Type) where
  symbol : String
  fields : ρ
  sourceSymbol : Option String

/-- What a batch adapter returns. -/
structure BatchEvidence (ρ : Type) where
  rows : List (EvidenceRow ρ)
  coverage : ℚ
  warnings : List String

/-- The symbol of a row, where its market has an exchange: `symbol(row["market"], row["symbol"])`. -/
def QuoteRow.symbol (row : QuoteRow) : Except BatchError String :=
  match row.returned with
  | some (.number market, .text code) =>
    if market < 0 then .error .keyError
    else match symbolOf market.toNat code with
      | some symbol => .ok symbol
      | none => .error .keyError
  | _ => .error .keyError

/-- The warning of the symbols left without a row, of which at most ten are named. -/
def missingSymbolsWarning (missing : List String) : List String :=
  if missing = [] then []
  else ["missing_symbols=" ++ toString missing.length ++ ": " ++ ", ".intercalate (missing.take 10) ++
    (if 10 < missing.length then " ..." else "")]

section Evidence

variable {ρ : Type} (toUpper : String → String) (oldToNew : List (String × String))
  -- what the adapter makes of the other fields of a row, or raises
  (fieldsOf : QuoteRow → Except BatchError ρ)

/-- A row of `_quote_row` or `_limit_row`. -/
def adapterRow (row : QuoteRow) : Except BatchError (EvidenceRow ρ) := do
  let symbol ← row.symbol
  let fields ← fieldsOf row
  return ⟨symbol, fields, none⟩

/-- `symbol(*market_code(item))`. -/
def answeredAs (item : String) : Except BatchError String := do
  let (market, code) ← marketCode toUpper oldToNew item
  match symbolOf market code with
  | some symbol => .ok symbol
  | none => .error .keyError

def batchEvidence (rows : List (EvidenceRow ρ)) (symbols : List String) (host : String) :
    Except BatchError (BatchEvidence ρ) := do
  let requested ← symbols.mapM (fun item => do
    let answer ← answeredAs toUpper oldToNew item
    return (item, answer))
  let returned := rows.map EvidenceRow.symbol
  let missing := (requested.filter (fun entry => entry.2 ∉ returned)).map Prod.fst
  let translated := Dict.update [] ((requested.filter (fun entry => toUpper entry.1 ≠ entry.2)).map Prod.swap)
  return {
    rows := rows.map (fun row => { row with sourceSymbol := translated.lookup row.symbol })
    coverage := (rows.length : ℚ) / symbols.length
    warnings := ("tdx_host=" ++ host) :: missingSymbolsWarning missing }

/-- `fetch_watch_snapshot` and `fetch_limit_prices`, by the answers of the host. -/
def fetchBatch (gb18030 : List UInt8 → String) (answer : ℕ → List UInt8) (symbols : List String)
    (host : String) : Except BatchError (BatchEvidence ρ) := do
  let stocks ← requestedStocks toUpper oldToNew symbols
  let kept ← batchQuotes gb18030 answer stocks
  let rows ← kept.mapM (adapterRow fieldsOf)
  batchEvidence toUpper oldToNew rows symbols host

end Evidence

end TradingHarness
