import TradingHarness.Tdx.Records

set_option autoImplicit false

/-! # Bars and ticks read back

The format's encoding of bars and ticks, prices as deltas along the records, and what the parsers read of
it: every record with its own stamp, prices and amounts, and the position where the encoding ends. -/

namespace TradingHarness

/-! ## One number -/

/-- `encode_price` of the tests: six bits and the sign in the first byte, then seven a byte. -/
def encodePrice (value : ℤ) : List UInt8 :=
  let sign := if value < 0 then 64 else 0
  if value.natAbs < 64 then [UInt8.ofNat (sign + value.natAbs)]
  else UInt8.ofNat (128 + sign + value.natAbs % 64) :: Wire.groups (value.natAbs / 64)

variable (number : ℕ) (byte : UInt8) (value shift pos : ℕ) (rest : List UInt8)

theorem priceLoop_last (hlast : byte &&& 0x80 = 0) : priceLoop byte value shift pos rest = .ok (value, pos + 1) := by
  cases rest with
  | nil => exact if_pos hlast
  | cons next rest => exact if_pos hlast

theorem priceLoop_cons (next : UInt8) (value shift pos : ℕ) (rest : List UInt8)
    (hmore : ¬ byte &&& 0x80 = 0) :
    priceLoop byte value shift pos (next :: rest)
      = priceLoop next (value + (next &&& 0x7F).toNat <<< shift) (shift + 7) (pos + 1) rest :=
  if_neg hmore

theorem priceLoop_groups (hmore : ¬ byte &&& 0x80 = 0) :
    priceLoop byte value shift pos (Wire.groups number ++ rest)
      = .ok (value + number * 2 ^ shift, pos + (Wire.groups number).length + 1) := by
  induction number using Wire.groups_induction generalizing byte value shift pos with
  | last number hlt =>
      have hbyte : (UInt8.ofNat number).toNat = number := by
        rw [UInt8.toNat_ofNat']
        omega
      rw [Wire.groups_of_lt hlt, List.singleton_append, priceLoop_cons _ _ _ _ _ _ hmore,
        priceLoop_last _ _ _ _ _ ((Wire.and_80_eq_zero_iff _).mpr (by omega)), Wire.and_7f, hbyte,
        Nat.mod_eq_of_lt hlt, Nat.shiftLeft_eq]
      rfl
  | more number hle ih =>
      have hbyte : (UInt8.ofNat (128 + number % 128)).toNat = 128 + number % 128 := by
        rw [UInt8.toNat_ofNat']
        omega
      have hmarked : ¬ UInt8.ofNat (128 + number % 128) &&& 0x80 = 0 := by
        rw [Wire.and_80_eq_zero_iff]
        omega
      have hlow : (128 + number % 128) % 128 = number % 128 := by omega
      rw [Wire.groups_of_le hle, List.cons_append, priceLoop_cons _ _ _ _ _ _ hmore, ih _ _ _ _ hmarked,
        Wire.and_7f, hbyte, hlow, Nat.shiftLeft_eq, List.length_cons]
      -- the low group and the groups above it are the number again
      have hsplit : number % 128 * 2 ^ shift + number / 128 * 2 ^ (shift + 7) = number * 2 ^ shift := by
        calc number % 128 * 2 ^ shift + number / 128 * 2 ^ (shift + 7)
            = (number % 128 + 128 * (number / 128)) * 2 ^ shift := by ring
          _ = number * 2 ^ shift := by rw [Nat.mod_add_div]
      rw [Nat.add_assoc, hsplit, show pos + 1 + (Wire.groups (number / 128)).length
        = pos + ((Wire.groups (number / 128)).length + 1) by omega]

theorem signed_natAbs (value : ℤ) (byte : UInt8) (hsign : byte.toNat / 64 % 2 = if value < 0 then 1 else 0) :
    (if byte &&& 0x40 = 0 then (value.natAbs : ℤ) else -(value.natAbs : ℤ)) = value := by
  by_cases hneg : value < 0
  · rw [if_pos hneg] at hsign
    rw [if_neg (by rw [Wire.and_40_eq_zero_iff]; omega)]
    omega
  · rw [if_neg hneg] at hsign
    rw [if_pos ((Wire.and_40_eq_zero_iff byte).mpr hsign)]
    omega

theorem decodePrice_at (data : List UInt8) (pos : ℕ) (value : ℤ)
    (h : Wire.At data pos (encodePrice value)) :
    decodePrice data pos = .ok (value, pos + (encodePrice value).length) := by
  obtain ⟨after, hafter⟩ := h
  have hsign : (if value < 0 then 64 else 0) / 64 = if value < 0 then 1 else 0 := by split_ifs <;> rfl
  have hbound : (if value < 0 then 64 else 0) ≤ 64 ∧ (if value < 0 then 64 else 0) % 64 = 0 := by
    split_ifs <;> exact ⟨by omega, rfl⟩
  unfold encodePrice at hafter ⊢
  unfold decodePrice
  rw [← hafter]
  simp only
  generalize hs : (if value < 0 then 64 else 0) = sign at *
  by_cases hsmall : value.natAbs < 64
  · have hbyte : (UInt8.ofNat (sign + value.natAbs)).toNat = sign + value.natAbs := by
      rw [UInt8.toNat_ofNat']
      omega
    rw [if_pos hsmall]
    simp only [List.singleton_append]
    rw [priceLoop_last _ _ _ _ _ ((Wire.and_80_eq_zero_iff _).mpr (by omega)), Wire.and_3f, hbyte,
      show (sign + value.natAbs) % 64 = value.natAbs by omega]
    simp only
    rw [signed_natAbs value _ (by rw [hbyte, ← hsign]; omega)]
    rfl
  · have hbyte : (UInt8.ofNat (128 + sign + value.natAbs % 64)).toNat = 128 + sign + value.natAbs % 64 := by
      rw [UInt8.toNat_ofNat']
      omega
    have hmarked : ¬ UInt8.ofNat (128 + sign + value.natAbs % 64) &&& 0x80 = 0 := by
      rw [Wire.and_80_eq_zero_iff]
      omega
    have hall : value.natAbs % 64 + value.natAbs / 64 * 2 ^ 6 = value.natAbs := by omega
    rw [if_neg hsmall]
    simp only [List.cons_append]
    rw [priceLoop_groups _ _ _ _ _ _ hmarked, Wire.and_3f, hbyte,
      show (128 + sign + value.natAbs % 64) % 64 = value.natAbs % 64 by omega, hall]
    simp only
    rw [signed_natAbs value _ (by rw [hbyte, ← hsign]; omega)]
    rfl

theorem unpackWord_at (data : List UInt8) (pos width word : ℕ) (hlt : word < 256 ^ width)
    (h : Wire.At data pos (Wire.toWord width word)) : unpackWord width data pos = .ok word := by
  unfold unpackWord
  rw [Wire.readWord_at data pos width word hlt h]

/-! ## Stamps -/

/-- A date and time of day. -/
structure BarTime where
  year : ℕ
  month : ℕ
  day : ℕ
  hour : ℕ
  minute : ℕ

variable (time : BarTime) (category : ℤ)

/-- The stamp of a category has room for the time: every value of the words is one such time. -/
def BarTime.Fits : Prop :=
  if HasClock category then
    2004 ≤ time.year ∧ time.year < 2036 ∧ time.month * 100 + time.day < 2048 ∧ time.day < 100 ∧
      time.hour * 60 + time.minute < 65536 ∧ time.minute < 60
  else time.year * 10000 + time.month * 100 + time.day < 2 ^ 32 ∧ time.month < 100 ∧ time.day < 100

instance (time : BarTime) (category : ℤ) : Decidable (time.Fits category) := by
  unfold BarTime.Fits
  infer_instance

/-- The words of the stamp. -/
def BarTime.encode : List UInt8 :=
  if HasClock category then
    Wire.toWord 2 ((time.year - 2004) * 2048 + (time.month * 100 + time.day)) ++
      Wire.toWord 2 (time.hour * 60 + time.minute)
  else Wire.toWord 4 (time.year * 10000 + time.month * 100 + time.day)

/-- The text of the stamp: the date, with the time of day where the category has one. -/
def BarTime.text : String :=
  if HasClock category then
    dateText time.year time.month time.day ++ " " ++ clockText time.hour time.minute
  else dateText time.year time.month time.day

theorem length_encode_time : (time.encode category).length = 4 := by
  unfold BarTime.encode
  split_ifs
  · rw [List.length_append, Wire.length_toWord, Wire.length_toWord]
  · exact Wire.length_toWord 4 _

theorem barDatetime_at (data : List UInt8) (pos : ℕ) (time : BarTime)
    (hfits : time.Fits category) (h : Wire.At data pos (time.encode category)) :
    barDatetime category data pos = .ok (time.text category, pos + 4) := by
  unfold BarTime.Fits at hfits
  unfold BarTime.encode at h
  unfold barDatetime BarTime.text
  by_cases hclock : HasClock category
  · rw [if_pos hclock] at hfits h
    obtain ⟨hfrom, hto, hdate, hday, htime, hminute⟩ := hfits
    obtain ⟨hzipday, hminutes⟩ := (Wire.at_append _ _ _ _).mp h
    rw [Wire.length_toWord] at hminutes
    have hlow : ((time.year - 2004) * 2048 + (time.month * 100 + time.day)) % 2048
        = time.month * 100 + time.day := by
      rw [Nat.mul_add_mod_self_right, Nat.mod_eq_of_lt hdate]
    rw [if_pos hclock, if_pos hclock, unpackWord_at _ _ _ _ (by omega) hzipday]
    show (unpackWord 2 data (pos + 2) >>= _) = _
    rw [unpackWord_at _ _ _ _ (by omega) hminutes]
    show Except.ok _ = _
    rw [Nat.shiftRight_eq_div_pow, hlow,
      show ((time.year - 2004) * 2048 + (time.month * 100 + time.day)) / 2 ^ 11 + 2004 = time.year by omega,
      show (time.month * 100 + time.day) / 100 = time.month by omega,
      show (time.month * 100 + time.day) % 100 = time.day by omega,
      show (time.hour * 60 + time.minute) / 60 = time.hour by omega,
      show (time.hour * 60 + time.minute) % 60 = time.minute by omega]
  · rw [if_neg hclock] at hfits h
    obtain ⟨hpacked, hmonth, hday⟩ := hfits
    rw [if_neg hclock, if_neg hclock, unpackWord_at _ _ _ _ (by omega) h]
    show Except.ok _ = _
    rw [show (time.year * 10000 + time.month * 100 + time.day) / 10000 = time.year by omega,
      show (time.year * 10000 + time.month * 100 + time.day) % 10000 / 100 = time.month by omega,
      show (time.year * 10000 + time.month * 100 + time.day) % 100 = time.day by omega]

/-! ## Bars -/

/-- A bar of a category: prices in thousandths, and the words of volume and amount. -/
structure Bar (category : ℤ) where
  time : BarTime
  openPrice : ℤ
  close : ℤ
  high : ℤ
  low : ℤ
  volumeRaw : ℕ
  amountRaw : ℕ
  fits : time.Fits category
  volume_fits : volumeRaw < 2 ^ 32
  amount_fits : amountRaw < 2 ^ 32

namespace Bar

variable {category : ℤ}

/-- The record of a bar after the one that closed at the base. -/
def encode (base : ℤ) (bar : Bar category) : List UInt8 :=
  bar.time.encode category ++ (encodePrice (bar.openPrice - base) ++
    (encodePrice (bar.close - bar.openPrice) ++ (encodePrice (bar.high - bar.openPrice) ++
      (encodePrice (bar.low - bar.openPrice) ++
        (Wire.toWord 4 bar.volumeRaw ++ Wire.toWord 4 bar.amountRaw)))))

/-- The bar as a row of the parser. -/
def shown (bar : Bar category) : BarRow where
  datetime := bar.time.text category
  openPrice := bar.openPrice / 1000
  close := bar.close / 1000
  high := bar.high / 1000
  low := bar.low / 1000
  volume := decodeAmount category bar.volumeRaw
  amount := decodeAmount category bar.amountRaw

end Bar

/-- The records of bars in turn, each open against the close before it. -/
def encodeRecords {category : ℤ} : ℤ → List (Bar category) → List UInt8
  | _, [] => []
  | base, bar :: bars => bar.encode base ++ encodeRecords bar.close bars

/-- The answer with the bars. -/
def encodeBars {category : ℤ} (bars : List (Bar category)) : List UInt8 :=
  Wire.toWord 2 bars.length ++ encodeRecords 0 bars

variable (body : List UInt8) (history : Bool)

theorem readBars_at {category : ℤ} (bars : List (Bar category)) (pos : ℕ) (base : ℤ)
    (h : Wire.At body pos (encodeRecords base bars)) :
    readBars category body bars.length pos base
      = .ok (bars.map Bar.shown, pos + (encodeRecords base bars).length) := by
  induction bars generalizing pos base with
  | nil => rfl
  | cons bar bars ih =>
      obtain ⟨hrecord, hrest⟩ := (Wire.at_append _ _ _ _).mp h
      obtain ⟨htime, hrecord'⟩ := (Wire.at_append _ _ _ _).mp hrecord
      rw [length_encode_time] at hrecord'
      obtain ⟨hopen, hrecord'⟩ := (Wire.at_append _ _ _ _).mp hrecord'
      obtain ⟨hclose, hrecord'⟩ := (Wire.at_append _ _ _ _).mp hrecord'
      obtain ⟨hhigh, hrecord'⟩ := (Wire.at_append _ _ _ _).mp hrecord'
      obtain ⟨hlow, hrecord'⟩ := (Wire.at_append _ _ _ _).mp hrecord'
      obtain ⟨hvolume, hamount⟩ := (Wire.at_append _ _ _ _).mp hrecord'
      rw [Wire.length_toWord] at hamount
      have hlength : (bar.encode base).length
          = 4 + (encodePrice (bar.openPrice - base)).length + (encodePrice (bar.close - bar.openPrice)).length
            + (encodePrice (bar.high - bar.openPrice)).length
            + (encodePrice (bar.low - bar.openPrice)).length + 8 := by
        unfold Bar.encode
        simp only [List.length_append, length_encode_time, Wire.length_toWord]
        omega
      -- the next record stands after this one, and its base is this close
      have hnext := ih (pos + (bar.encode base).length) bar.close hrest
      have hbase : bar.openPrice - base + base + (bar.close - bar.openPrice) = bar.close := by ring
      rw [hlength] at hnext
      simp only [← Nat.add_assoc] at hnext
      rw [List.length_cons, readBars, barDatetime_at _ _ _ _ bar.fits htime]
      simp only [bind, Except.bind, decodePrice_at _ _ _ hopen, decodePrice_at _ _ _ hclose,
        decodePrice_at _ _ _ hhigh, decodePrice_at _ _ _ hlow,
        unpackWord_at _ _ _ _ bar.volume_fits hvolume, unpackWord_at _ _ _ _ bar.amount_fits hamount, hbase,
        hnext, pure, Except.pure]
      rw [List.map_cons, encodeRecords, List.length_append, hlength]
      simp only [Bar.shown, sub_add_cancel, add_sub_cancel, ← Nat.add_assoc]

theorem scanBars_encode {category : ℤ} (bars : List (Bar category)) (after : List UInt8)
    (hcount : bars.length < 2 ^ 16) :
    scanBars category (encodeBars bars ++ after)
      = .ok (bars.map Bar.shown, (encodeBars bars).length) := by
  obtain ⟨hword, hrecords⟩ := (Wire.at_append _ _ _ _).mp (Wire.at_zero (encodeBars bars) after)
  rw [Wire.length_toWord] at hrecords
  unfold scanBars
  rw [unpackWord_at _ _ _ _ hcount hword]
  show readBars category _ bars.length 2 0 = _
  rw [readBars_at _ bars 2 0 (by simpa using hrecords), encodeBars, List.length_append, Wire.length_toWord]

/-! ## Ticks -/

/-- A print of the tick list: the price in hundredths, and the unused number at its end. -/
structure TickPrint where
  hour : ℕ
  minute : ℕ
  price : ℤ
  volume : ℤ
  prints : ℤ
  sideCode : ℤ
  reserved : ℤ
  time_fits : hour * 60 + minute < 65536
  minute_fits : minute < 60

namespace TickPrint

/-- The record of a print after one at the last price. -/
def encode (history : Bool) (last : ℤ) (tick : TickPrint) : List UInt8 :=
  Wire.toWord 2 (tick.hour * 60 + tick.minute) ++ (encodePrice (tick.price - last) ++
    (encodePrice tick.volume ++ ((if history then [] else encodePrice tick.prints) ++
      (encodePrice tick.sideCode ++ encodePrice tick.reserved))))

/-- The print as a row of the parser. -/
def shown (history : Bool) (tick : TickPrint) : TickRow where
  time := clockText tick.hour tick.minute
  price := tick.price / 100
  volumeLots := tick.volume
  prints := if history then none else some tick.prints
  side := side tick.sideCode
  sideCode := tick.sideCode

end TickPrint

/-- The records of prints in turn, each price against the one before it. -/
def encodePrints (history : Bool) : ℤ → List TickPrint → List UInt8
  | _, [] => []
  | last, tick :: ticks => tick.encode history last ++ encodePrints history tick.price ticks

/-- The answer with the prints. Four more bytes, which nothing reads, stand before historical ones. -/
def encodeTicks (history : Bool) (unread : ℕ) (ticks : List TickPrint) : List UInt8 :=
  Wire.toWord 2 ticks.length ++ ((if history then Wire.toWord 4 unread else []) ++
    encodePrints history 0 ticks)

theorem readPrints_at (pos : ℕ) (prints : ℤ)
    (h : Wire.At body pos (if history then [] else encodePrice prints)) :
    readPrints body history pos = .ok (if history then none else some prints,
      pos + (if history then [] else encodePrice prints).length) := by
  cases history with
  | true => rfl
  | false =>
      unfold readPrints
      rw [if_neg Bool.false_ne_true, decodePrice_at _ _ _ h]
      rfl

theorem readTicks_at (ticks : List TickPrint) (pos : ℕ) (last : ℤ)
    (h : Wire.At body pos (encodePrints history last ticks)) :
    readTicks body history ticks.length pos last
      = .ok (ticks.map (TickPrint.shown history), pos + (encodePrints history last ticks).length) := by
  induction ticks generalizing pos last with
  | nil => rfl
  | cons tick ticks ih =>
      obtain ⟨hrecord, hrest⟩ := (Wire.at_append _ _ _ _).mp h
      obtain ⟨hminutes, hrecord'⟩ := (Wire.at_append _ _ _ _).mp hrecord
      rw [Wire.length_toWord] at hrecord'
      obtain ⟨hdelta, hrecord'⟩ := (Wire.at_append _ _ _ _).mp hrecord'
      obtain ⟨hvolume, hrecord'⟩ := (Wire.at_append _ _ _ _).mp hrecord'
      obtain ⟨hprints, hrecord'⟩ := (Wire.at_append _ _ _ _).mp hrecord'
      obtain ⟨hside, hreserved⟩ := (Wire.at_append _ _ _ _).mp hrecord'
      have hlength : (tick.encode history last).length
          = 2 + (encodePrice (tick.price - last)).length + (encodePrice tick.volume).length
            + (if history then [] else encodePrice tick.prints).length
            + (encodePrice tick.sideCode).length + (encodePrice tick.reserved).length := by
        unfold TickPrint.encode
        simp only [List.length_append, Wire.length_toWord]
        omega
      -- the next record stands after this one, and its last price is this one
      have hnext := ih (pos + (tick.encode history last).length) tick.price hrest
      have hprice : last + (tick.price - last) = tick.price := by ring
      have hhour : (tick.hour * 60 + tick.minute) / 60 = tick.hour := by
        have := tick.minute_fits
        omega
      have hminute : (tick.hour * 60 + tick.minute) % 60 = tick.minute := by
        have := tick.minute_fits
        omega
      rw [hlength] at hnext
      simp only [← Nat.add_assoc] at hnext
      rw [List.length_cons, readTicks, unpackWord_at _ _ _ _ tick.time_fits hminutes]
      simp only [bind, Except.bind, decodePrice_at _ _ _ hdelta, decodePrice_at _ _ _ hvolume,
        readPrints_at _ _ _ _ hprints, decodePrice_at _ _ _ hside, decodePrice_at _ _ _ hreserved, hprice,
        hnext, pure, Except.pure, hhour, hminute]
      rw [List.map_cons, encodePrints, List.length_append, hlength]
      simp only [TickPrint.shown, ← Nat.add_assoc]

theorem scanTicks_encode (unread : ℕ) (ticks : List TickPrint) (after : List UInt8)
    (hcount : ticks.length < 2 ^ 16) :
    scanTicks (encodeTicks history unread ticks ++ after) history
      = .ok (ticks.map (TickPrint.shown history), (encodeTicks history unread ticks).length) := by
  obtain ⟨hword, hrest⟩ := (Wire.at_append _ _ _ _).mp (Wire.at_zero (encodeTicks history unread ticks) after)
  obtain ⟨-, hrecords⟩ := (Wire.at_append _ _ _ _).mp hrest
  have hheader : 2 + (if history then Wire.toWord 4 unread else []).length = if history then 6 else 2 := by
    cases history with
    | true => rw [if_pos rfl, if_pos rfl, Wire.length_toWord]
    | false => rfl
  rw [Wire.length_toWord, Nat.zero_add, hheader] at hrecords
  unfold scanTicks
  rw [unpackWord_at _ _ _ _ hcount hword]
  show readTicks _ history ticks.length (if history then 6 else 2) 0 = _
  rw [readTicks_at _ history ticks _ 0 hrecords, encodeTicks, List.length_append, List.length_append,
    Wire.length_toWord, ← Nat.add_assoc, hheader]

/-! ## The main result -/

/-- **Numbers, bars and ticks read back.** `decode_price` returns every integer from where it stands
    encoded, with the position after it. `parse_bars` and `parse_ticks` return the records of the encoded
    answer in order, and their loops end where the encoding ends. The format counts the records in one word
    of two bytes. -/
theorem records_read_back :
    (∀ (before after : List UInt8) (value : ℤ),
      decodePrice (before ++ encodePrice value ++ after) before.length
        = .ok (value, (before ++ encodePrice value).length)) ∧
    (∀ (category : ℤ) (bars : List (Bar category)) (after : List UInt8), bars.length < 2 ^ 16 →
      parseBars category (encodeBars bars ++ after) = .ok (bars.map Bar.shown) ∧
      scanBars category (encodeBars bars ++ after) = .ok (bars.map Bar.shown, (encodeBars bars).length)) ∧
    ∀ (history : Bool) (unread : ℕ) (ticks : List TickPrint) (after : List UInt8), ticks.length < 2 ^ 16 →
      parseTicks (encodeTicks history unread ticks ++ after) history
        = .ok (ticks.map (TickPrint.shown history)) ∧
      scanTicks (encodeTicks history unread ticks ++ after) history
        = .ok (ticks.map (TickPrint.shown history), (encodeTicks history unread ticks).length) := by
  refine ⟨?_, ?_, ?_⟩
  · intro before after value
    rw [List.length_append]
    refine decodePrice_at _ _ value ?_
    unfold Wire.At
    rw [List.append_assoc, List.drop_left]
    exact List.prefix_append _ _
  · intro category bars after hcount
    have hscan := scanBars_encode bars after hcount
    refine ⟨?_, hscan⟩
    unfold parseBars
    rw [hscan]
    rfl
  · intro history unread ticks after hcount
    have hscan := scanTicks_encode history unread ticks after hcount
    refine ⟨?_, hscan⟩
    unfold parseTicks
    rw [hscan]
    rfl

/-- Two minute bars, the second one far below the first. -/
def fallingBars : List (Bar 8) :=
  [{ time := ⟨2026, 10, 9, 9, 31⟩, openPrice := 11590, close := 11600, high := 11610, low := 11580,
     volumeRaw := 0x4ABE42A0, amountRaw := 0x00400000, fits := by decide, volume_fits := by decide,
     amount_fits := by decide },
   { time := ⟨2026, 10, 9, 14, 59⟩, openPrice := -250, close := -987654, high := 0, low := -987654,
     volumeRaw := 0, amountRaw := 0, fits := by decide, volume_fits := by decide, amount_fits := by decide }]

theorem records_read_back_fallingBars :
    parseBars 8 (encodeBars fallingBars ++ [0xFF]) = .ok (fallingBars.map Bar.shown) :=
  (records_read_back.2.1 8 fallingBars [0xFF] (by decide)).1

end TradingHarness
