import TradingHarness.Library.Runs
import TradingHarness.Tdx.MacFields

set_option autoImplicit false

/-! # Dynamic responses read back

A response built from a bitmap and rows of words is decoded to the same rows, every active field under its
own name; the decoder accepts exactly the lengths that bitmap and count imply; and sets of bits and bitmaps
are the same thing. -/

namespace TradingHarness

/-! ## Names -/

/-- The keys of the fixed part. -/
def fixedKeys : List String := ["market", "symbol", "name", "total"]

/-- The octets of a name as one number. -/
def nameNumber (name : String) : ℕ :=
  name.toUTF8.data.toList.foldl (fun number octet => number * 256 + octet.toNat) 0

theorem nameNumbers_nodup :
    ((fixedKeys ++ (List.range macFieldBits).map (fun bit => (fieldByBit bit).name)).map nameNumber).Nodup := by
  decide +kernel

theorem fieldNames_nodup :
    (fixedKeys ++ (List.range macFieldBits).map (fun bit => (fieldByBit bit).name)).Nodup :=
  nameNumbers_nodup.of_map nameNumber

variable (bits : List ℤ) (bytes : List UInt8) (bit : ℕ)

theorem fieldByBit_bit : (fieldByBit bit).bit = bit := by
  unfold fieldByBit
  split
  · rfl
  · split <;> rfl

theorem map_bit_fieldByBit (bits : List ℕ) : (bits.map fieldByBit).map MACField.bit = bits := by
  rw [List.map_map]
  exact List.map_id'' fieldByBit_bit bits

/-! ## Bitmaps and their bits -/

theorem hasBit_foldl (hlength : bytes.length = macFieldBytes) :
    Bitmap.hasBit (bits.foldl (fun bitmap (bit : ℤ) =>
      if 0 ≤ bit ∧ bit < macFieldBits then Bitmap.setBit bitmap bit.toNat else bitmap) bytes) bit
      ↔ bit < macFieldBits ∧ (bit : ℤ) ∈ bits ∨ Bitmap.hasBit bytes bit := by
  induction bits generalizing bytes with
  | nil => simp
  | cons first rest ih =>
      rw [List.foldl_cons, List.mem_cons]
      by_cases hfirst : 0 ≤ first ∧ first < macFieldBits
      · have hplace : first.toNat / 8 < bytes.length := by
          have hlt := hfirst.2
          unfold macFieldBits at hlt
          omega
        have hsame : bit = first.toNat ↔ (bit : ℤ) = first := by omega
        rw [if_pos hfirst, ih _ (by rw [Bitmap.length_setBit, hlength]), Bitmap.hasBit_setBit _ _ _ hplace,
          hsame]
        have hrange : (bit : ℤ) = first → bit < macFieldBits := by
          rintro rfl
          exact_mod_cast hfirst.2
        tauto
      · have hne : bit < macFieldBits → (bit : ℤ) ≠ first := by
          rintro hlt rfl
          exact hfirst ⟨Int.natCast_nonneg bit, by exact_mod_cast hlt⟩
        rw [if_neg hfirst, ih _ hlength]
        tauto

theorem length_foldl_setBit :
    (bits.foldl (fun bitmap (bit : ℤ) =>
      if 0 ≤ bit ∧ bit < macFieldBits then Bitmap.setBit bitmap bit.toNat else bitmap) bytes).length
      = bytes.length := by
  induction bits generalizing bytes with
  | nil => rfl
  | cons first rest ih =>
      rw [List.foldl_cons, ih]
      split_ifs
      · exact Bitmap.length_setBit bytes first.toNat
      · rfl

theorem length_bitmapForBits : (bitmapForBits bits).length = macFieldBytes := by
  unfold bitmapForBits
  rw [length_foldl_setBit, List.length_replicate]

theorem hasBit_bitmapForBits :
    Bitmap.hasBit (bitmapForBits bits) bit ↔ bit < macFieldBits ∧ (bit : ℤ) ∈ bits := by
  unfold bitmapForBits
  rw [hasBit_foldl bits _ bit List.length_replicate]
  exact or_iff_left (Bitmap.not_hasBit_replicate macFieldBytes bit)

theorem activeBits_bitmapForBits :
    activeBits (bitmapForBits bits) = (List.range macFieldBits).filter (fun bit : ℕ => (bit : ℤ) ∈ bits) := by
  unfold activeBits
  refine List.filter_congr ?_
  intro bit hbit
  rw [decide_eq_decide, hasBit_bitmapForBits]
  exact and_iff_right (List.mem_range.mp hbit)

variable (gb18030 : List UInt8 → String) (body bitmap : List UInt8) (total : UInt32) (rowSize : ℕ)

section

variable (hlength : bitmap.length = macFieldBytes)

include hlength

theorem mem_activeBits (bit : ℕ) :
    bit ∈ activeBits bitmap ↔ Bitmap.hasBit bitmap bit := by
  unfold activeBits
  rw [List.mem_filter, List.mem_range, decide_eq_true_eq]
  refine and_iff_right_of_imp ?_
  intro hbit
  by_contra hle
  unfold macFieldBits at hle
  exact Bitmap.not_hasBit_of_le bitmap bit (by omega) hbit

theorem bitmapForBits_activeBits :
    bitmapForBits ((activeBits bitmap).map Nat.cast) = bitmap := by
  refine Bitmap.ext_hasBit _ _ ((length_bitmapForBits _).trans hlength.symm) ?_
  intro bit
  rw [hasBit_bitmapForBits, List.mem_map_of_injective Nat.cast_injective, mem_activeBits bitmap hlength]
  refine and_iff_right_of_imp ?_
  intro hbit
  exact List.mem_range.mp (List.mem_of_mem_filter ((mem_activeBits bitmap hlength bit).mpr hbit))

theorem activeFields_of_length :
    activeFields bitmap = .ok ((activeBits bitmap).map fieldByBit) :=
  if_neg (not_not_intro hlength)

end

/-! ## Encoding -/

/-- A row on the wire: the fixed part, and a word for every bit. -/
structure MacRow where
  market : UInt16
  symbol : List UInt8
  name : List UInt8
  word : ℕ → UInt32
  symbol_length : symbol.length = 22
  name_length : name.length = 44

/-- The words of the bits, in order. -/
def encodeWords (row : MacRow) (bits : List ℕ) : List UInt8 :=
  bits.flatMap (fun bit => Wire.toWord 4 (row.word bit).toNat)

def encodeMacRow (bits : List ℕ) (row : MacRow) : List UInt8 :=
  Wire.toWord 2 row.market.toNat ++ (row.symbol ++ (row.name ++ encodeWords row bits))

/-- The response with the rows. -/
def encodeResponse (bitmap : List UInt8) (total : UInt32) (rows : List MacRow) : List UInt8 :=
  bitmap ++ (Wire.toWord 4 total.toNat ++ (Wire.toWord 2 rows.length ++
    rows.flatMap (encodeMacRow (activeBits bitmap))))

/-- The words of the bits under their fields' names. -/
def namedWords (row : MacRow) (bits : List ℕ) : List (String × MacValue) :=
  bits.map (fun bit => ((fieldByBit bit).name, (fieldByBit bit).format.value (row.word bit).toNat))

/-- The row as the decoder gives it. -/
def MacRow.shown (gb18030 : List UInt8 → String) (bitmap : List UInt8) (total : UInt32) (row : MacRow) :
    List (String × MacValue) :=
  fixedPart gb18030 row.market.toNat total.toNat row.symbol row.name ++ namedWords row (activeBits bitmap)

variable (data : List UInt8) (offset : ℕ) (row : MacRow)

section

variable (bits : List ℕ)

theorem length_encodeWords :
    (encodeWords row bits).length = 4 * bits.length := by
  unfold encodeWords
  induction bits with
  | nil => rfl
  | cons bit bits ih =>
      rw [List.flatMap_cons, List.length_append, ih, Wire.length_toWord, List.length_cons]
      omega

theorem length_encodeMacRow (row : MacRow) :
    (encodeMacRow bits row).length = 68 + 4 * bits.length := by
  unfold encodeMacRow
  rw [List.length_append, List.length_append, List.length_append, Wire.length_toWord, row.symbol_length,
    row.name_length, length_encodeWords]
  omega

theorem length_encodeMacRows (rows : List MacRow) :
    (rows.flatMap (encodeMacRow bits)).length = rows.length * (68 + 4 * bits.length) := by
  induction rows with
  | nil => exact (Nat.zero_mul _).symm
  | cons row rows ih =>
      rw [List.flatMap_cons, List.length_append, ih, length_encodeMacRow, List.length_cons]
      ring

end

/-! ## Names of a row -/

theorem shown_nodup (row : MacRow) :
    ((row.shown gb18030 bitmap total).map Prod.fst).Nodup := by
  have hkeys : (row.shown gb18030 bitmap total).map Prod.fst
      = fixedKeys ++ (activeBits bitmap).map (fun bit => (fieldByBit bit).name) := by
    unfold MacRow.shown namedWords
    rw [List.map_append, List.map_map]
    rfl
  rw [hkeys]
  refine fieldNames_nodup.sublist (List.Sublist.append (List.Sublist.refl _) (List.Sublist.map _ ?_))
  exact List.filter_sublist

theorem namedWords_nodup (bitmap : List UInt8) :
    ((namedWords row (activeBits bitmap)).map Prod.fst).Nodup := by
  have hrow := shown_nodup (fun _ => "") bitmap 0 row
  unfold MacRow.shown at hrow
  rw [List.map_append] at hrow
  exact hrow.of_append_right

theorem lookup_shown (row : MacRow)
    (bit : ℕ) (hbit : bit < macFieldBits) :
    (row.shown gb18030 bitmap total).lookup (fieldByBit bit).name
      = if bit ∈ activeBits bitmap then
          some ((fieldByBit bit).format.value (row.word bit).toNat) else none := by
  by_cases hactive : bit ∈ activeBits bitmap
  · rw [if_pos hactive]
    refine Dict.lookup_of_mem _ _ _ (shown_nodup gb18030 bitmap total row) ?_
    exact List.mem_append_right _ (List.mem_map.mpr ⟨bit, hactive, rfl⟩)
  · rw [if_neg hactive, Dict.lookup_eq_none]
    unfold MacRow.shown namedWords
    rw [List.map_append, List.map_map, List.mem_append]
    have hnames := fieldNames_nodup
    rw [List.nodup_append] at hnames
    rintro (hfixed | hnamed)
    · exact hnames.2.2 _ hfixed _ (List.mem_map.mpr ⟨bit, List.mem_range.mpr hbit, rfl⟩) rfl
    · -- a field with the same name is the same field
      obtain ⟨other, hother, hname⟩ := List.mem_map.mp hnamed
      have hrange : other ∈ List.range macFieldBits := List.mem_of_mem_filter hother
      have heq := List.inj_on_of_nodup_map hnames.2.1 hrange (List.mem_range.mpr hbit) hname
      exact hactive (heq ▸ hother)

/-! ## Reading -/

theorem unpackMac_at (pos width word : ℕ) (hlt : word < 256 ^ width)
    (h : Wire.At data pos (Wire.toWord width word)) : unpackMac width data pos = .ok word := by
  unfold unpackMac
  rw [Wire.readWord_at data pos width word hlt h]

theorem readFields_at (bits : List ℕ)
    (values : List (String × MacValue)) (h : Wire.At data offset (encodeWords row bits)) :
    readFields data offset (bits.map fieldByBit) values
      = .ok (Dict.update values (namedWords row bits)) := by
  induction bits generalizing offset values with
  | nil => rfl
  | cons bit bits ih =>
      obtain ⟨hword, hrest⟩ := (Wire.at_append _ _ _ _).mp h
      rw [Wire.length_toWord] at hrest
      rw [List.map_cons, readFields, unpackMac_at _ _ _ _ (row.word bit).toNat_lt hword]
      exact ih _ _ hrest

theorem decodeDynamicRow_at (bitmap : List UInt8) (offset : ℕ) (row : MacRow)
    (hlength : bitmap.length = macFieldBytes) (hoffset : offset ≤ data.length)
    (h : Wire.At data offset (encodeWords row (activeBits bitmap))) :
    decodeDynamicRow data bitmap offset
      = .ok (namedWords row (activeBits bitmap), offset + 4 * (activeBits bitmap).length) := by
  have hroom := h.length_le hoffset
  rw [length_encodeWords] at hroom
  unfold decodeDynamicRow
  rw [activeFields_of_length bitmap hlength]
  show (if data.length < offset + 4 * ((activeBits bitmap).map fieldByBit).length then _ else _) = _
  rw [List.length_map, if_neg (by omega), readFields_at data offset row _ [] h,
    Dict.update_fresh [] (namedWords row (activeBits bitmap)) (namedWords_nodup row bitmap)]
  rfl

theorem decodeResponseRow_at (index : ℕ) (row : MacRow) (hlength : bitmap.length = macFieldBytes)
    (hstart : 26 + index * rowSize ≤ body.length)
    (h : Wire.At body (26 + index * rowSize) (encodeMacRow (activeBits bitmap) row)) :
    decodeResponseRow gb18030 body bitmap total.toNat rowSize index
      = .ok (row.shown gb18030 bitmap total) := by
  have hroom := h.length_le hstart
  rw [length_encodeMacRow] at hroom
  obtain ⟨hmarket, h⟩ := (Wire.at_append _ _ _ _).mp h
  obtain ⟨hsymbol, h⟩ := (Wire.at_append _ _ _ _).mp h
  obtain ⟨hname, hwords⟩ := (Wire.at_append _ _ _ _).mp h
  rw [Wire.length_toWord] at hsymbol hname hwords
  rw [row.symbol_length] at hname hwords
  rw [row.name_length] at hwords
  have hsymbolSlice := hsymbol.slice
  have hnameSlice := hname.slice
  rw [row.symbol_length] at hsymbolSlice
  rw [row.name_length] at hnameSlice
  show (unpackMac 2 body (26 + index * rowSize) >>= _) = _
  rw [unpackMac_at _ _ _ _ row.market.toNat_lt hmarket]
  show (decodeDynamicRow body bitmap (26 + index * rowSize + 2 + 22 + 44) >>= _) = _
  rw [decodeDynamicRow_at body bitmap _ row hlength (by omega) hwords]
  show Except.ok (Dict.update (fixedPart gb18030 _ _ ((body.drop (26 + index * rowSize + 2)).take 22)
    ((body.drop (26 + index * rowSize + 2 + 22)).take 44)) _) = _
  rw [hsymbolSlice, hnameSlice, Dict.update_fresh _ _ (shown_nodup gb18030 bitmap total row)]
  rfl

theorem rows_at (bits : List ℕ) (rows : List MacRow) (pos : ℕ)
    (h : Wire.At body pos (rows.flatMap (encodeMacRow bits))) (index : ℕ) (hindex : index < rows.length) :
    Wire.At body (pos + index * (68 + 4 * bits.length)) (encodeMacRow bits rows[index]) := by
  induction rows generalizing pos index with
  | nil => exact absurd hindex (Nat.not_lt_zero index)
  | cons row rows ih =>
      rw [List.flatMap_cons] at h
      obtain ⟨hrow, hrows⟩ := (Wire.at_append _ _ _ _).mp h
      rw [length_encodeMacRow] at hrows
      cases index with
      | zero => simpa using hrow
      | succ index =>
          have hnext := ih _ hrows index (Nat.lt_of_succ_lt_succ hindex)
          rwa [Nat.add_assoc, Nat.add_comm (68 + 4 * bits.length), ← Nat.add_one_mul] at hnext

/-! ## Lengths -/

/-- The row count of a response. -/
def rowCount (body : List UInt8) : ℕ := Wire.ofWord ((body.drop 24).take 2)

/-- The total of a response. -/
def responseTotal (body : List UInt8) : ℕ := Wire.ofWord ((body.drop 20).take 4)

/-- The size that bitmap and row count imply. -/
def impliedSize (body : List UInt8) : ℕ :=
  26 + rowCount body * (68 + 4 * (activeBits (body.take macFieldBytes)).length)

theorem unpackMac_of_room (width : ℕ) (data : List UInt8) (pos : ℕ) (hroom : pos + width ≤ data.length) :
    unpackMac width data pos = .ok (Wire.ofWord ((data.drop pos).take width)) := by
  unfold unpackMac Wire.readWord
  rw [if_pos (by rw [List.length_take, List.length_drop]; omega)]

/-- What the decoder does behind the envelope. -/
theorem decodeDynamicResponse_of_envelope (henvelope : 26 ≤ body.length) :
    decodeDynamicResponse gb18030 body
      = if body.length < impliedSize body then
          .error (.tdxMacError ("truncated response: need " ++ toString (impliedSize body) ++
            " bytes, got " ++ toString body.length))
        else if impliedSize body < body.length then
          .error (.tdxMacError ("trailing bytes in response: got " ++ toString body.length ++
            ", expected " ++ toString (impliedSize body)))
        else (List.range (rowCount body)).mapM (decodeResponseRow gb18030 body (body.take macFieldBytes)
          (responseTotal body) (68 + 4 * (activeBits (body.take macFieldBytes)).length)) := by
  have hlength : (body.take macFieldBytes).length = macFieldBytes := by
    rw [List.length_take]
    unfold macFieldBytes
    omega
  unfold decodeDynamicResponse
  rw [if_neg (by omega)]
  show (unpackMac 4 body 20 >>= _) = _
  rw [unpackMac_of_room 4 body 20 (by omega)]
  show (unpackMac 2 body 24 >>= _) = _
  rw [unpackMac_of_room 2 body 24 (by omega)]
  show (activeFields (body.take macFieldBytes) >>= _) = _
  rw [activeFields_of_length _ hlength]
  simp only [bind, Except.bind, List.length_map]
  rfl

theorem decodeDynamicResponse_encode (rows : List MacRow) (hlength : bitmap.length = macFieldBytes) (hcount : rows.length < 2 ^ 16) :
    decodeDynamicResponse gb18030 (encodeResponse bitmap total rows)
      = .ok (rows.map (MacRow.shown gb18030 bitmap total)) := by
  obtain ⟨hbitmap, h⟩ := (Wire.at_append _ _ _ _).mp (Wire.at_zero (encodeResponse bitmap total rows) [])
  rw [List.append_nil, hlength] at h
  rw [List.append_nil] at hbitmap
  obtain ⟨htotal, h⟩ := (Wire.at_append _ _ _ _).mp h
  obtain ⟨hword, hrows⟩ := (Wire.at_append _ _ _ _).mp h
  rw [Wire.length_toWord] at hword hrows
  rw [Wire.length_toWord] at hrows
  have hsize : (encodeResponse bitmap total rows).length
      = 26 + rows.length * (68 + 4 * (activeBits bitmap).length) := by
    unfold encodeResponse
    rw [List.length_append, List.length_append, List.length_append, hlength, Wire.length_toWord,
      Wire.length_toWord, length_encodeMacRows]
    unfold macFieldBytes
    omega
  generalize encodeResponse bitmap total rows = body at *
  have htake : body.take macFieldBytes = bitmap := by
    have hslice := hbitmap.slice
    rwa [List.drop_zero, hlength] at hslice
  have htotal' : responseTotal body = total.toNat := by
    have hslice := htotal.slice
    rw [Wire.length_toWord] at hslice
    exact (congrArg Wire.ofWord hslice).trans (Wire.ofWord_toWord 4 _ total.toNat_lt)
  have hcount' : rowCount body = rows.length := by
    have hslice := hword.slice
    rw [Wire.length_toWord] at hslice
    exact (congrArg Wire.ofWord hslice).trans (Wire.ofWord_toWord 2 _ hcount)
  have himplied : impliedSize body = body.length := by
    unfold impliedSize
    rw [hcount', htake, hsize]
  rw [decodeDynamicResponse_of_envelope gb18030 body (by omega), himplied, if_neg (lt_irrefl _),
    if_neg (lt_irrefl _), htake, htotal', hcount', Runs.mapM_ok_iff]
  -- the row of an index is read from where it stands
  refine List.forall₂_iff_get.mpr ⟨by rw [List.length_range, List.length_map], ?_⟩
  intro index hindex hindex'
  rw [List.length_range] at hindex
  have hrow := rows_at body (activeBits bitmap) rows 26 hrows index hindex
  rw [List.get_eq_getElem, List.get_eq_getElem, List.getElem_range, List.getElem_map]
  refine decodeResponseRow_at gb18030 body bitmap total _ index rows[index] hlength ?_ hrow
  rw [hsize]
  exact Nat.add_le_add_left (Nat.mul_le_mul_right _ hindex.le) 26

theorem readFields_total (fields : List MACField)
    (values : List (String × MacValue)) (hroom : offset + 4 * fields.length ≤ data.length) :
    ∃ result, readFields data offset fields values = .ok result := by
  induction fields generalizing offset values with
  | nil => exact ⟨values, rfl⟩
  | cons field fields ih =>
      rw [List.length_cons] at hroom
      rw [readFields, unpackMac_of_room 4 data offset (by omega)]
      exact ih _ _ (by omega)

theorem decodeResponseRow_total (total rowSize index : ℕ) (hlength : bitmap.length = macFieldBytes)
    (hroom : 26 + index * rowSize + (68 + 4 * (activeBits bitmap).length) ≤ body.length) :
    ∃ row, decodeResponseRow gb18030 body bitmap total rowSize index = .ok row := by
  obtain ⟨values, hvalues⟩ := readFields_total body (26 + index * rowSize + 68)
    ((activeBits bitmap).map fieldByBit) [] (by rw [List.length_map]; omega)
  have hrow : decodeDynamicRow body bitmap (26 + index * rowSize + 68)
      = .ok (values, 26 + index * rowSize + 68 + 4 * ((activeBits bitmap).map fieldByBit).length) := by
    unfold decodeDynamicRow
    rw [activeFields_of_length bitmap hlength]
    show (if body.length < _ then _ else _) = _
    rw [if_neg (by rw [List.length_map]; omega), hvalues]
    rfl
  have hall : decodeResponseRow gb18030 body bitmap total rowSize index
      = .ok (Dict.update (fixedPart gb18030 (Wire.ofWord ((body.drop (26 + index * rowSize)).take 2)) total
          ((body.drop (26 + index * rowSize + 2)).take 22)
          ((body.drop (26 + index * rowSize + 24)).take 44)) values) := by
    show (unpackMac 2 body (26 + index * rowSize) >>= _) = _
    rw [unpackMac_of_room 2 body _ (by omega)]
    show (decodeDynamicRow body bitmap (26 + index * rowSize + 68) >>= _) = _
    rw [hrow]
    rfl
  exact ⟨_, hall⟩

theorem decodeDynamicResponse_accepts :
    (∃ rows, decodeDynamicResponse gb18030 body = .ok rows)
      ↔ 26 ≤ body.length ∧ body.length = impliedSize body := by
  by_cases hshort : body.length < 26
  · unfold decodeDynamicResponse
    rw [if_pos hshort]
    constructor
    · rintro ⟨rows, h⟩
      exact absurd h (by simp)
    · rintro ⟨hlong, -⟩
      omega
  · rw [decodeDynamicResponse_of_envelope gb18030 body (by omega)]
    constructor
    · rintro ⟨rows, h⟩
      refine ⟨by omega, ?_⟩
      split_ifs at h with htruncated htrailing
      omega
    · rintro ⟨-, hsize⟩
      have hlength : (body.take macFieldBytes).length = macFieldBytes := by
        rw [List.length_take]
        unfold macFieldBytes
        omega
      rw [if_neg (by omega), if_neg (by omega)]
      refine Runs.mapM_total _ _ ?_
      intro index hindex
      refine decodeResponseRow_total gb18030 body _ _ _ index hlength ?_
      -- the rows up to this one are within the implied size
      have hrows := Nat.mul_le_mul_right (68 + 4 * (activeBits (body.take macFieldBytes)).length)
        (Nat.succ_le_of_lt (List.mem_range.mp hindex))
      rw [Nat.succ_mul] at hrows
      unfold impliedSize at hsize
      omega

/-! ## The main result -/

/-- A row whose words are the numbers of their bits. -/
def numberedRow : MacRow where
  market := 1
  symbol := List.replicate 22 0x30
  name := List.replicate 44 0x41
  word := fun bit => UInt32.ofNat bit
  symbol_length := List.length_replicate
  name_length := List.length_replicate

/-- A codec that reads every byte as one character, as GB18030 does for ASCII. -/
def asciiText (raw : List UInt8) : String := String.ofList (raw.map (fun byte => Char.ofNat byte.toNat))

end TradingHarness
