import Mathlib.Data.List.DropRight
import TradingHarness.Library.Bitmap
import TradingHarness.Library.Dict
import TradingHarness.Tdx.Records

set_option autoImplicit false

/-! # Dynamic fields of the MAC service

The field registry of `tdx_mac_fields.py` and its decoder: one little-endian word for every set bit of a
20-byte bitmap, in bit order, behind a fixed part of every row. -/

namespace TradingHarness

/-! ## The registry -/

/-- `MACField.format`. -/
inductive FieldFormat
  | float32
  | int32
  | uint32

/-- A field of the registry. -/
structure MACField where
  bit : ℕ
  name : String
  format : FieldFormat

def macFieldBytes : ℕ := 20

def macFieldBits : ℕ := macFieldBytes * 8

/-- `bit_0xNN`: the wire name of a bit. -/
def wireName (bit : ℕ) : String :=
  "bit_0x" ++ String.ofList (List.leftpad 2 '0' (Nat.toDigits 16 bit))

/-- `_BASIC`, name and format by bit. -/
def basicFields : List (ℕ × String × FieldFormat) :=
  [(0, "pre_close", .float32), (1, "open", .float32), (2, "high", .float32), (3, "low", .float32),
    (4, "close", .float32), (5, "vol", .uint32), (6, "vol_ratio", .float32), (7, "amount", .float32),
    (8, "inside_volume", .uint32), (9, "outside_volume", .uint32), (10, "total_shares", .float32),
    (11, "float_shares", .float32), (12, "eps", .float32), (13, "net_assets", .float32),
    (14, "security_type_price", .float32), (15, "total_market_cap_ab", .float32),
    (16, "pe_dynamic", .float32), (17, "bid_price", .float32), (18, "ask_price", .float32),
    (19, "server_update_date", .uint32), (20, "server_update_time", .uint32),
    (21, "lot_size_info", .uint32), (22, "bit_0x16", .int32), (23, "dividend_yield", .float32),
    (24, "bid_volume", .uint32), (25, "ask_volume", .uint32), (26, "last_volume", .uint32),
    (27, "turnover", .float32), (28, "industry", .uint32), (29, "bit_0x1d", .float32),
    (30, "stock_tag_flags", .uint32), (31, "decimal_point", .uint32), (32, "buy_price_limit", .float32),
    (33, "sell_price_limit", .float32), (34, "price_decimal_info", .uint32), (35, "lot_size", .uint32),
    (36, "pre_iopv", .float32), (37, "speed_pct", .float32), (38, "avg_price", .float32),
    (39, "iopv", .float32), (40, "pe_ttm_vol_related", .float32), (41, "ex_price_placeholder", .float32),
    (42, "operating_revenue", .float32), (43, "flag_kcb", .uint32), (44, "flag_bj", .uint32),
    (45, "circulating_capital_z", .float32), (46, "after_hours_volume", .int32),
    (48, "pe_ttm", .float32), (49, "pe_static", .float32), (55, "index_metric", .float32),
    (56, "main_net_amount", .float32), (57, "bid_ask_ratio", .float32), (58, "non_index_flag", .uint32),
    (59, "change_20d_pct", .float32), (60, "ytd_pct", .float32), (64, "mtd_pct", .float32),
    (65, "change_1y_pct", .float32), (66, "prev_change_pct", .float32), (67, "change_3d_pct", .float32),
    (68, "change_60d_pct", .float32), (69, "change_5d_pct", .float32), (70, "change_10d_pct", .float32),
    (71, "prev2_change_pct", .float32), (72, "bid2_price", .float32), (73, "ask2_price", .float32),
    (74, "ah_code", .uint32), (75, "bit_0x4b", .uint32), (87, "open_amount", .float32),
    (88, "annual_limit_up_days", .int32), (89, "bit_0x59", .uint32),
    (91, "dividend_yield_rate", .float32), (92, "close_streak", .int32), (93, "bit_0x5d", .uint32),
    (94, "bit_0x5e", .uint32), (95, "industry_sub", .uint32), (102, "auction_buy_limit", .float32),
    (103, "auction_sell_limit", .float32), (104, "vol_speed_pct", .float32),
    (105, "short_turnover_pct", .float32), (106, "amount_2m", .float32),
    (107, "main_net_amount_copy", .float32), (115, "ddx", .float32), (119, "stock_flag_a", .float32),
    (120, "stock_flag_b", .float32), (122, "bit_0x7a", .float32), (123, "prev_amount", .float32),
    (125, "recent_indicator", .float32), (128, "bid3_price", .float32), (129, "bid4_price", .float32),
    (130, "bid5_price", .float32), (131, "ask3_price", .float32), (132, "ask4_price", .float32),
    (133, "ask5_price", .float32), (134, "bid3_volume", .uint32), (135, "bid4_volume", .uint32),
    (136, "up_count", .uint32), (137, "ask3_volume", .uint32), (138, "ask4_volume", .uint32),
    (139, "down_count", .uint32), (140, "bid_ask_diff", .int32), (141, "change_up_type", .int32),
    (142, "safety_score", .float32), (143, "highlight_count", .float32),
    (144, "change_at_1000", .float32), (145, "change_at_1030", .float32),
    (146, "change_at_1100", .float32), (147, "change_at_1130", .float32),
    (148, "change_at_1330", .float32), (149, "change_at_1400", .float32),
    (150, "change_at_1430", .float32)]

/-- The bits that `_BASIC` is updated with, under their wire names. -/
def closedBits : List ℕ := [0x6C, 0x6D, 0x6E, 0x6F, 0x70, 0x71, 0x72, 0x74, 0x75, 0x76]

def unknownFormats : List (ℕ × FieldFormat) :=
  [(47, .float32), (50, .uint32), (51, .uint32), (52, .uint32), (53, .float32), (54, .float32),
    (61, .float32), (62, .uint32), (63, .uint32)] ++ (List.range' 76 11).map (fun bit => (bit, .float32))

/-- `FIELD_BY_BIT`: a known field, or the wire name in the upstream format. -/
def fieldByBit (bit : ℕ) : MACField :=
  if bit ∈ closedBits then ⟨bit, wireName bit, .float32⟩
  else match basicFields.lookup bit with
    | some (name, format) => ⟨bit, name, format⟩
    | none => ⟨bit, wireName bit, (unknownFormats.lookup bit).getD .uint32⟩

/-! ## Bitmaps -/

/-- What the decoders raise. -/
inductive MacError
  | valueError (text : String)
  | tdxMacError (text : String)
  | structError
  deriving DecidableEq

/-- `bitmap_for_bits`: bits outside the bitmap are passed over. -/
def bitmapForBits (bits : List ℤ) : List UInt8 :=
  bits.foldl (fun bitmap (bit : ℤ) =>
    if 0 ≤ bit ∧ bit < macFieldBits then Bitmap.setBit bitmap bit.toNat else bitmap)
    (List.replicate macFieldBytes 0)

/-- The bits of the bitmap that are set, in order. -/
def activeBits (bitmap : List UInt8) : List ℕ :=
  (List.range macFieldBits).filter (fun bit => decide (Bitmap.hasBit bitmap bit))

def activeFields (bitmap : List UInt8) : Except MacError (List MACField) :=
  if bitmap.length ≠ macFieldBytes then .error (.valueError "MAC bitmap must be exactly 20 bytes")
  else .ok ((activeBits bitmap).map fieldByBit)

/-! ## Rows -/

/-- A value of a decoded row. -/
inductive MacValue
  | number (value : ℤ)
  | single (value : FloatValue)
  | text (value : String)
  deriving DecidableEq

/-- The value of a word. -/
def FieldFormat.value : FieldFormat → ℕ → MacValue
  | .float32, word => .single (singleOf word)
  | .int32, word => .number (if word < 2 ^ 31 then (word : ℤ) else (word : ℤ) - 2 ^ 32)
  | .uint32, word => .number word

/-- `struct.unpack_from` of one little-endian word. -/
def unpackMac (width : ℕ) (data : List UInt8) (pos : ℕ) : Except MacError ℕ :=
  match Wire.readWord data pos width with
  | some word => .ok word
  | none => .error .structError

/-- The words of the fields from an offset on, each put into the dictionary under its field's name. -/
def readFields (data : List UInt8) : ℕ → List MACField → List (String × MacValue) →
    Except MacError (List (String × MacValue))
  | _, [], values => .ok values
  | offset, field :: fields, values => do
    let word ← unpackMac 4 data offset
    readFields data (offset + 4) fields (Dict.set values field.name (field.format.value word))

def decodeDynamicRow (data bitmap : List UInt8) (offset : ℕ) :
    Except MacError (List (String × MacValue) × ℕ) := do
  let fields ← activeFields bitmap
  let last := offset + 4 * fields.length
  if data.length < last then
    .error (.valueError ("truncated MAC dynamic row: need " ++ toString (4 * fields.length) ++ " bytes"))
  else do
    let values ← readFields data offset fields []
    .ok (values, last)

/-- The characters `str.strip` removes. -/
def isSpace (char : Char) : Bool :=
  char.toNat ∈ [9, 10, 11, 12, 13, 28, 29, 30, 31, 32, 133, 160, 5760, 8192, 8193, 8194, 8195, 8196, 8197,
    8198, 8199, 8200, 8201, 8202, 8232, 8233, 8239, 8287, 12288]

def strip (text : String) : String :=
  String.ofList ((text.toList.dropWhile isSpace).rdropWhile isSpace)

section Responses

-- the GB18030 codec with replacement, which decodes every byte string
variable (gb18030 : List UInt8 → String)

/-- `decode_gbk`: the text up to the first NUL. -/
def decodeGbk (raw : List UInt8) : String := strip (gb18030 (raw.takeWhile (· ≠ 0)))

/-- The fixed part of a row of `decode_dynamic_response`, before it is updated with the dynamic fields. -/
def fixedPart (market total : ℕ) (symbol name : List UInt8) : List (String × MacValue) :=
  [("market", .number market), ("symbol", .text (decodeGbk gb18030 symbol)),
    ("name", .text (decodeGbk gb18030 name)), ("total", .number total)]

/-- A row of `decode_dynamic_response`. -/
def decodeResponseRow (body bitmap : List UInt8) (total rowSize index : ℕ) :
    Except MacError (List (String × MacValue)) := do
  let start := 26 + index * rowSize
  let market ← unpackMac 2 body start
  let symbol := (body.drop (start + 2)).take 22
  let name := (body.drop (start + 24)).take 44
  let (values, _) ← decodeDynamicRow body bitmap (start + 68)
  return Dict.update (fixedPart gb18030 market total symbol name) values

def decodeDynamicResponse (body : List UInt8) : Except MacError (List (List (String × MacValue))) :=
  if body.length < 26 then
    .error (.tdxMacError ("truncated response envelope: need 26 bytes, got " ++ toString body.length))
  else do
    let bitmap := body.take 20
    let total ← unpackMac 4 body 20
    let count ← unpackMac 2 body 24
    let fields ← activeFields bitmap
    let rowSize := 68 + 4 * fields.length
    let expectedSize := 26 + count * rowSize
    if body.length < expectedSize then
      .error (.tdxMacError ("truncated response: need " ++ toString expectedSize ++ " bytes, got " ++
        toString body.length))
    else if expectedSize < body.length then
      .error (.tdxMacError ("trailing bytes in response: got " ++ toString body.length ++ ", expected " ++
        toString expectedSize))
    else (List.range count).mapM (decodeResponseRow gb18030 body bitmap total rowSize)

end Responses

end TradingHarness
