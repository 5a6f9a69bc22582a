import Mathlib.Data.Rat.Defs
import Mathlib.Algebra.Field.Rat
import TradingHarness.Library.Wire

set_option autoImplicit false

/-! # Bars and ticks of the quote protocol

The decoding primitives of `tdx_protocol.py` and the two parsers whose records are chains of deltas. Numbers
that Python computes as floats stand for the rational the expression denotes. -/

namespace TradingHarness

/-- What a parser raises on a body that ends too early. -/
inductive ParseError
  | indexError
  | structError
  deriving DecidableEq

/-- `struct.unpack` of one little-endian word of the slice. -/
def unpackWord (width : ℕ) (data : List UInt8) (pos : ℕ) : Except ParseError ℕ :=
  match Wire.readWord data pos width with
  | some word => .ok word
  | none => .error .structError

/-! ## Signed numbers of variable length -/

/-- The loop of `decode_price` at a byte, on the bytes after it: the magnitude and the next position. -/
def priceLoop (byte : UInt8) (value shift pos : ℕ) : List UInt8 → Except ParseError (ℕ × ℕ)
  | [] => if byte &&& 0x80 = 0 then .ok (value, pos + 1) else .error .indexError
  | next :: rest =>
    if byte &&& 0x80 = 0 then .ok (value, pos + 1)
    else priceLoop next (value + (next &&& 0x7F).toNat <<< shift) (shift + 7) (pos + 1) rest

/-- `decode_price`: six bits in the first byte, with the sign, then seven a byte. -/
def decodePrice (data : List UInt8) (pos : ℕ) : Except ParseError (ℤ × ℕ) :=
  match data.drop pos with
  | [] => .error .indexError
  | byte :: rest =>
    match priceLoop byte (byte &&& 0x3F).toNat 6 pos rest with
    | .ok (value, next) => .ok (if byte &&& 0x40 = 0 then (value : ℤ) else -(value : ℤ), next)
    | .error error => .error error

/-! ## Words of volume and amount -/

/-- A float that was read from its bits. -/
inductive FloatValue
  | finite (value : ℚ)
  | infinite (negative : Bool)
  | nan
  deriving DecidableEq

/-- `struct.unpack("<f", ...)`: the IEEE single of the 32 bits. -/
def singleOf (bits : ℕ) : FloatValue :=
  let sign : ℚ := if bits / 2 ^ 31 % 2 = 1 then -1 else 1
  let exponent : ℕ := bits / 2 ^ 23 % 2 ^ 8
  let fraction : ℕ := bits % 2 ^ 23
  if exponent = 255 then
    if fraction = 0 then .infinite (decide (bits / 2 ^ 31 % 2 = 1)) else .nan
  else if exponent = 0 then .finite (sign * fraction * (2 : ℚ) ^ (-149 : ℤ))
  else .finite (sign * (2 ^ 23 + fraction : ℕ) * (2 : ℚ) ^ ((exponent : ℤ) - 150))

/-- `_float32`: a denormal of the closing call is read as zero. -/
def float32 (raw : ℕ) : FloatValue :=
  match singleOf raw with
  | .finite value => if |value| < 1 / 10 ^ 20 then .finite 0 else .finite value
  | other => other

/-- `decode_volume`: the packed floating amount. -/
def decodeVolume (raw : ℕ) : ℚ :=
  let logpoint : ℤ := (raw >>> 24 : ℕ)
  let hleax := (raw >>> 16) % 256
  let lheax := (raw >>> 8) % 256
  let lleax := raw % 256
  let ecx := logpoint * 2 - 0x7F
  let edx := logpoint * 2 - 0x86
  let esi := logpoint * 2 - 0x8E
  let eax := logpoint * 2 - 0x96
  let xmm6 : ℚ := if ecx < 0 then 1 / 2 ^ ecx.natAbs else 2 ^ ecx.natAbs
  let xmm4 : ℚ :=
    if 0x80 < hleax then (2 : ℚ) ^ edx * 128 + (hleax % 128 : ℕ) * (2 : ℚ) ^ (edx + 1)
    else if 0 ≤ edx then (2 : ℚ) ^ edx * hleax
    else 1 / (2 : ℚ) ^ edx * hleax
  let doubled : ℚ := if 0x80 ≤ hleax then 2 else 1
  let xmm3 : ℚ := (2 : ℚ) ^ esi * lheax * doubled
  let xmm1 : ℚ := (2 : ℚ) ^ eax * lleax * doubled
  xmm6 + xmm4 + xmm3 + xmm1

def minuteBarCategories : List ℤ := [0, 1, 2, 3, 8]

variable (category : ℤ) (body : List UInt8)

/-- `decode` of `parse_bars`: single floats in minute bars, the packed amount in the others. -/
def decodeAmount (raw : ℕ) : FloatValue :=
  if category ∈ minuteBarCategories then float32 raw else .finite (decodeVolume raw)

/-! ## Stamps -/

/-- A number in decimal, with leading zeros up to the width. -/
def padded (width number : ℕ) : String :=
  String.ofList (List.leftpad width '0' (Nat.toDigits 10 number))

def dateText (year month day : ℕ) : String :=
  padded 4 year ++ "-" ++ padded 2 month ++ "-" ++ padded 2 day

def clockText (hour minute : ℕ) : String := padded 2 hour ++ ":" ++ padded 2 minute

/-- The categories whose stamp has a time of day. -/
def HasClock : Prop := category < 4 ∨ category ∈ [(7 : ℤ), 8]

instance (category : ℤ) : Decidable (HasClock category) := inferInstanceAs (Decidable (_ ∨ _))

/-- `_bar_datetime`: the text of the stamp and the position after it. -/
def barDatetime (data : List UInt8) (pos : ℕ) : Except ParseError (String × ℕ) :=
  if HasClock category then do
    let zipday ← unpackWord 2 data pos
    let minutes ← unpackWord 2 data (pos + 2)
    let year := (zipday >>> 11) + 2004
    let month := zipday % 2048 / 100
    let day := zipday % 2048 % 100
    return (dateText year month day ++ " " ++ clockText (minutes / 60) (minutes % 60), pos + 4)
  else do
    let packed ← unpackWord 4 data pos
    return (dateText (packed / 10000) (packed % 10000 / 100) (packed % 100), pos + 4)

/-! ## Bars -/

/-- A row of `parse_bars`. -/
structure BarRow where
  datetime : String
  openPrice : ℚ
  close : ℚ
  high : ℚ
  low : ℚ
  volume : FloatValue
  amount : FloatValue

/-- The loop of `parse_bars`, with the position where it ends. -/
def readBars (category : ℤ) (body : List UInt8) : ℕ → ℕ → ℤ → Except ParseError (List BarRow × ℕ)
  | 0, pos, _ => .ok ([], pos)
  | count + 1, pos, base => do
    let (stamp, pos) ← barDatetime category body pos
    let (openDiff, pos) ← decodePrice body pos
    let (closeDiff, pos) ← decodePrice body pos
    let (highDiff, pos) ← decodePrice body pos
    let (lowDiff, pos) ← decodePrice body pos
    let volumeRaw ← unpackWord 4 body pos
    let amountRaw ← unpackWord 4 body (pos + 4)
    let openValue := openDiff + base
    let bar : BarRow :=
      { datetime := stamp, openPrice := openValue / 1000, close := (openValue + closeDiff : ℤ) / 1000,
        high := (openValue + highDiff : ℤ) / 1000, low := (openValue + lowDiff : ℤ) / 1000,
        volume := decodeAmount category volumeRaw, amount := decodeAmount category amountRaw }
    let (bars, last) ← readBars category body count (pos + 8) (openValue + closeDiff)
    return (bar :: bars, last)

/-- The bars of a body and the position after the last one. -/
def scanBars : Except ParseError (List BarRow × ℕ) := do
  let count ← unpackWord 2 body 0
  readBars category body count 2 0

def parseBars : Except ParseError (List BarRow) := do
  let (bars, _) ← scanBars category body
  return bars

/-! ## Ticks -/

def tickSides : List (ℤ × String) := [(0, "B"), (1, "S"), (2, "N"), (5, "P"), (8, "A")]

def side (code : ℤ) : String := (tickSides.lookup code).getD "N"

/-- A row of `parse_ticks`. -/
structure TickRow where
  time : String
  price : ℚ
  volumeLots : ℤ
  prints : Option ℤ
  side : String
  sideCode : ℤ
  deriving DecidableEq

/-- The prints of a tick, which only today's ticks carry. -/
def readPrints (history : Bool) (pos : ℕ) : Except ParseError (Option ℤ × ℕ) :=
  if history then .ok (none, pos)
  else do
    let (prints, pos) ← decodePrice body pos
    return (some prints, pos)

/-- The loop of `parse_ticks`, with the position where it ends. -/
def readTicks (body : List UInt8) (history : Bool) : ℕ → ℕ → ℤ → Except ParseError (List TickRow × ℕ)
  | 0, pos, _ => .ok ([], pos)
  | count + 1, pos, last => do
    let minutes ← unpackWord 2 body pos
    let (delta, pos) ← decodePrice body (pos + 2)
    let (volume, pos) ← decodePrice body pos
    let (prints, pos) ← readPrints body history pos
    let (sideCode, pos) ← decodePrice body pos
    let (_, pos) ← decodePrice body pos
    let price := last + delta
    let tick : TickRow :=
      { time := clockText (minutes / 60) (minutes % 60), price := price / 100, volumeLots := volume,
        prints := prints, side := side sideCode, sideCode := sideCode }
    let (ticks, last) ← readTicks body history count pos price
    return (tick :: ticks, last)

/-- The ticks of a body and the position after the last one. Historical ticks have four more bytes of
    header. -/
def scanTicks (history : Bool) : Except ParseError (List TickRow × ℕ) := do
  let count ← unpackWord 2 body 0
  readTicks body history count (if history then 6 else 2) 0

def parseTicks (history : Bool) : Except ParseError (List TickRow) := do
  let (ticks, _) ← scanTicks body history
  return ticks

end TradingHarness
