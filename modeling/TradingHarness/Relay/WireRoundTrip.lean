import TradingHarness.Relay.ProtoWire

set_option autoImplicit false

/-! # Payloads read back

The parser ends on every byte string with fields or its own error, within as many rounds as there are bytes
and seventeen nested calls; and the standard encoding of a payload is read as its fields, groups left out. -/

namespace TradingHarness

/-! ## Positions go forward -/

theorem varintLoop_pos (value shift pos : ℕ) (bytes : List UInt8) (result next : ℕ)
    (h : varintLoop value shift pos bytes = some (result, next)) : pos < next := by
  induction bytes generalizing value shift pos with
  | nil => exact absurd h (by simp [varintLoop])
  | cons byte rest ih =>
      unfold varintLoop at h
      split_ifs at h with hshift hlast
      · obtain ⟨-, rfl⟩ := Prod.mk.inj (Option.some.inj h)
        exact Nat.lt_succ_self pos
      · exact lt_trans (Nat.lt_succ_self pos) (ih _ _ _ h)

section

variable (raw : List UInt8)

theorem readProtoVarint_pos (offset : ℕ) (layer : String) (value next : ℕ)
    (h : readProtoVarint raw offset layer = .ok (value, next)) : offset < next := by
  unfold readProtoVarint at h
  rcases hloop : varintLoop 0 0 offset (raw.drop offset) with _ | ⟨result, position⟩
  · rw [hloop] at h
    exact absurd h (by simp)
  · rw [hloop] at h
    obtain ⟨-, rfl⟩ := Prod.mk.inj (Except.ok.inj h)
    exact varintLoop_pos _ _ _ _ _ _ hloop

theorem readSlice_pos (offset length : ℕ) (error : TolerantProtoError)
    (value : ProtoValue) (next : ℕ) (h : readSlice raw offset length error = .ok (value, next)) :
    offset ≤ next := by
  unfold readSlice at h
  split_ifs at h with hshort
  obtain ⟨-, rfl⟩ := Prod.mk.inj (Except.ok.inj h)
  exact Nat.le_add_right offset length

theorem readPayload_pos (layer : String) (tag offset : ℕ) (value : ProtoValue) (next : ℕ)
    (h : readPayload raw layer tag offset = .ok (value, next)) : offset ≤ next := by
  unfold readPayload at h
  simp only at h
  split at h
  · rcases hvarint : readProtoVarint raw offset layer with error | ⟨number, position⟩
    · rw [hvarint] at h
      exact absurd h (by simp)
    · rw [hvarint] at h
      obtain ⟨-, rfl⟩ := Prod.mk.inj (Except.ok.inj h)
      exact (readProtoVarint_pos _ _ _ _ _ hvarint).le
  · exact readSlice_pos _ _ _ _ _ _ h
  · rcases hvarint : readProtoVarint raw offset layer with error | ⟨length, position⟩
    · rw [hvarint] at h
      exact absurd h (by simp)
    · rw [hvarint] at h
      exact (readProtoVarint_pos _ _ _ _ _ hvarint).le.trans (readSlice_pos _ _ _ _ _ _ h)
  · exact readSlice_pos _ _ _ _ _ _ h
  · exact absurd h (by simp)

end

/-- The position after what stands next. -/
def Next.offset : Next → ℕ
  | .close offset => offset
  | .group _ offset => offset
  | .field _ offset => offset

section

variable (raw : List UInt8)

section

variable (layer : String)

theorem readNext_pos (offset : ℕ) (endGroup : Option ℕ)
    (telemetry telemetry' : Telemetry) (next : Next)
    (h : readNext raw layer offset endGroup telemetry = (.ok next, telemetry')) : offset < next.offset := by
  unfold readNext at h
  rcases hvarint : readProtoVarint raw offset layer with error | ⟨tag, position⟩
  · rw [hvarint] at h
    exact absurd (Prod.mk.inj h).1 (by simp)
  · have hforward := readProtoVarint_pos _ _ _ _ _ hvarint
    rw [hvarint] at h
    simp only at h
    split_ifs at h with hnumber hclose hend hgroup
    · exact absurd (Prod.mk.inj h).1 (by simp)
    · obtain rfl := Except.ok.inj (Prod.mk.inj h).1
      exact hforward
    · exact absurd (Prod.mk.inj h).1 (by simp)
    · obtain rfl := Except.ok.inj (Prod.mk.inj h).1
      exact hforward
    · rcases hpayload : readPayload raw layer tag position with error | ⟨value, after⟩
      · rw [hpayload] at h
        exact absurd (Prod.mk.inj h).1 (by simp)
      · rw [hpayload] at h
        obtain rfl := Except.ok.inj (Prod.mk.inj h).1
        exact lt_of_lt_of_le hforward (readPayload_pos _ _ _ _ _ _ hpayload)

theorem fieldsLoop_pos (rounds frames offset : ℕ) (endGroup : Option ℕ)
    (depth : ℕ) (fields : List ProtoField) (telemetry telemetry' : Telemetry) (result : List ProtoField)
    (next : ℕ) (h : fieldsLoop raw layer rounds frames offset endGroup depth fields telemetry
      = some (.ok (result, next), telemetry')) : offset ≤ next := by
  induction rounds generalizing frames offset endGroup depth fields telemetry telemetry' result next with
  | zero => exact absurd h (by simp [fieldsLoop])
  | succ rounds ih =>
      unfold fieldsLoop at h
      split_ifs at h with hlast
      · rcases endGroup with _ | number
        · obtain ⟨-, rfl⟩ := Prod.mk.inj (Except.ok.inj (Prod.mk.inj (Option.some.inj h)).1)
          exact le_refl _
        · exact absurd (Prod.mk.inj (Option.some.inj h)).1 (by simp)
      · rcases hnext : readNext raw layer offset endGroup telemetry with ⟨error | next', telemetry₁⟩
        · rw [hnext] at h
          exact absurd (Prod.mk.inj (Option.some.inj h)).1 (by simp)
        · have hforward := readNext_pos _ _ _ _ _ _ _ hnext
          rw [hnext] at h
          rcases next' with position | ⟨number, position⟩ | ⟨field, position⟩
          · obtain ⟨-, rfl⟩ := Prod.mk.inj (Except.ok.inj (Prod.mk.inj (Option.some.inj h)).1)
            exact hforward.le
          · rcases frames with _ | inner
            · exact absurd h (by simp)
            · simp only at h
              split at h
              · exact absurd h (by simp)
              · exact absurd (Prod.mk.inj (Option.some.inj h)).1 (by simp)
              · next after telemetry₂ hinner =>
                  unfold enterAt at hinner
                  split_ifs at hinner with hdepth
                  · exact absurd (Prod.mk.inj (Option.some.inj hinner)).1 (by simp)
                  · exact hforward.le.trans ((ih _ _ _ _ _ _ _ _ _ hinner).trans (ih _ _ _ _ _ _ _ _ _ h))
          · exact hforward.le.trans (ih _ _ _ _ _ _ _ _ _ h)

/-! ## Bounds that suffice -/

theorem fieldsLoop_mono (rounds rounds' frames frames' offset : ℕ)
    (endGroup : Option ℕ) (depth : ℕ) (fields : List ProtoField) (telemetry : Telemetry)
    (outcome : WireOutcome) (hrounds : rounds ≤ rounds') (hframes : frames ≤ frames')
    (h : fieldsLoop raw layer rounds frames offset endGroup depth fields telemetry = some outcome) :
    fieldsLoop raw layer rounds' frames' offset endGroup depth fields telemetry = some outcome := by
  induction rounds generalizing rounds' frames frames' offset endGroup depth fields telemetry outcome with
  | zero => exact absurd h (by simp [fieldsLoop])
  | succ rounds ih =>
      obtain ⟨rounds', rfl⟩ := Nat.exists_eq_add_of_lt (lt_of_lt_of_le (Nat.succ_pos rounds) hrounds)
      rw [Nat.zero_add] at hrounds ⊢
      have hrounds' : rounds ≤ rounds' := Nat.le_of_succ_le_succ hrounds
      unfold fieldsLoop at h ⊢
      by_cases hlast : raw.length ≤ offset
      · rw [if_pos hlast] at h ⊢
        exact h
      · rw [if_neg hlast] at h ⊢
        rcases hnext : readNext raw layer offset endGroup telemetry with ⟨error | next, telemetry₁⟩
        · rw [hnext] at h
          exact h
        · rw [hnext] at h
          rcases next with position | ⟨number, position⟩ | ⟨field, position⟩
          · exact h
          · rcases frames with _ | inner
            · exact absurd h (by simp)
            · obtain ⟨inner', rfl⟩ := Nat.exists_eq_add_of_lt (lt_of_lt_of_le (Nat.succ_pos inner) hframes)
              rw [Nat.zero_add] at hframes
              simp only [Nat.zero_add] at h ⊢
              by_cases hdepth : 16 < depth + 1
              · unfold enterAt at h ⊢
                rw [if_pos hdepth] at h ⊢
                exact h
              · unfold enterAt at h ⊢
                rw [if_neg hdepth] at h ⊢
                rcases hinner : fieldsLoop raw layer rounds inner position (some number) (depth + 1) []
                  telemetry₁ with _ | inside
                · rw [hinner] at h
                  exact absurd h (by simp)
                · rw [hinner] at h
                  rw [ih _ _ _ _ _ _ _ _ _ hrounds' (Nat.le_of_succ_le_succ hframes) hinner]
                  rcases inside with ⟨error | ⟨skipped, after⟩, telemetry₂⟩
                  · exact h
                  · exact ih _ _ _ _ _ _ _ _ _ hrounds' hframes h
          · exact ih _ _ _ _ _ _ _ _ _ hrounds' hframes h

theorem fieldsLoop_total (rounds frames offset : ℕ)
    (endGroup : Option ℕ) (depth : ℕ) (fields : List ProtoField) (telemetry : Telemetry)
    (hrounds : raw.length - offset < rounds) (hdepth : depth ≤ 16) (hframes : 17 ≤ frames + depth) :
    ∃ outcome, fieldsLoop raw layer rounds frames offset endGroup depth fields telemetry = some outcome := by
  induction rounds generalizing frames offset endGroup depth fields telemetry with
  | zero => exact absurd hrounds (Nat.not_lt_zero _)
  | succ rounds ih =>
      unfold fieldsLoop
      by_cases hlast : raw.length ≤ offset
      · rw [if_pos hlast]
        rcases endGroup with _ | number
        · exact ⟨_, rfl⟩
        · exact ⟨_, rfl⟩
      · rw [if_neg hlast]
        rcases hnext : readNext raw layer offset endGroup telemetry with ⟨error | next, telemetry₁⟩
        · exact ⟨_, rfl⟩
        · have hforward := readNext_pos _ _ _ _ _ _ _ hnext
          rcases next with position | ⟨number, position⟩ | ⟨field, position⟩
          · exact ⟨_, rfl⟩
          · have hposition : offset < position := hforward
            rcases frames with _ | inner
            · exact absurd hframes (by omega)
            · simp only
              unfold enterAt
              by_cases hdeeper : 16 < depth + 1
              · rw [if_pos hdeeper]
                exact ⟨_, rfl⟩
              · rw [if_neg hdeeper]
                obtain ⟨inside, hinner⟩ := ih inner position (some number) (depth + 1) [] telemetry₁
                  (by omega) (by omega) (by omega)
                rw [hinner]
                rcases inside with ⟨error | ⟨skipped, after⟩, telemetry₂⟩
                · exact ⟨_, rfl⟩
                · -- the group ends behind its tag
                  have hafter := fieldsLoop_pos _ _ _ _ _ _ _ _ _ _ _ _ hinner
                  exact ih (inner + 1) after endGroup depth fields telemetry₂ (by omega) hdepth hframes
          · have hposition : offset < position := hforward
            exact ih frames position endGroup depth _ telemetry₁ (by omega) hdepth hframes

/-- Two runs that end come to the same. -/
theorem fieldsLoop_unique (rounds rounds' frames offset : ℕ)
    (endGroup : Option ℕ) (depth : ℕ) (fields : List ProtoField) (telemetry : Telemetry)
    (outcome outcome' : WireOutcome)
    (h : fieldsLoop raw layer rounds frames offset endGroup depth fields telemetry = some outcome)
    (h' : fieldsLoop raw layer rounds' frames offset endGroup depth fields telemetry = some outcome') :
    outcome = outcome' := by
  have hmax := fieldsLoop_mono _ _ _ (max rounds rounds') _ _ _ _ _ _ _ _ (le_max_left _ _) (le_refl _) h
  have hmax' := fieldsLoop_mono _ _ _ (max rounds rounds') _ _ _ _ _ _ _ _ (le_max_right _ _) (le_refl _) h'
  exact Option.some.inj (hmax.symm.trans hmax')

end

end

/-! ## Payloads -/

/-- A field number whose tag is a varint of ten bytes at most, as that of every number below 2^64 is. -/
structure FieldNumber where
  number : ℕ
  positive : 0 < number
  fits : number < 2 ^ 67

/-- A value on the wire. -/
inductive WireValue
  | varint (value : UInt64)
  | fixed64 (bytes : List UInt8) (length : bytes.length = 8)
  | delimited (bytes : List UInt8) (fits : bytes.length < 2 ^ 64)
  | fixed32 (bytes : List UInt8) (length : bytes.length = 4)

namespace WireValue

def wireType : WireValue → ℕ
  | varint _ => 0
  | fixed64 .. => 1
  | delimited .. => 2
  | fixed32 .. => 5

def encode : WireValue → List UInt8
  | varint value => Wire.groups value.toNat
  | fixed64 bytes _ => bytes
  | delimited bytes _ => Wire.groups bytes.length ++ bytes
  | fixed32 bytes _ => bytes

/-- The value as the parser gives it. -/
def shown : WireValue → ProtoValue
  | varint value => .int value.toNat
  | fixed64 bytes _ => .bytes bytes
  | delimited bytes _ => .bytes bytes
  | fixed32 bytes _ => .bytes bytes

end WireValue

/-- A payload: fields and groups in order. -/
inductive Payload
  | done
  | field (number : FieldNumber) (value : WireValue) (rest : Payload)
  | group (number : FieldNumber) (inner rest : Payload)

/-- The tag of a field number and a wire type. -/
def encodeTag (number : FieldNumber) (wireType : ℕ) : List UInt8 := Wire.groups (number.number * 8 + wireType)

namespace Payload

/-- The standard wire encoding. -/
def encode : Payload → List UInt8
  | done => []
  | field number value rest => encodeTag number value.wireType ++ value.encode ++ rest.encode
  | group number inner rest => encodeTag number 3 ++ (inner.encode ++ (encodeTag number 4 ++ rest.encode))

/-- The fields outside groups, in order. -/
def fields : Payload → List ProtoField
  | done => []
  | field number value rest => ⟨number.number, value.wireType, value.shown⟩ :: rest.fields
  | group _ _ rest => rest.fields

/-- How deep the groups nest. -/
def nesting : Payload → ℕ
  | done => 0
  | field _ _ rest => rest.nesting
  | group _ inner rest => max (inner.nesting + 1) rest.nesting

/-- The telemetry once every tag that opens something was recorded. -/
def record (layer : String) : Payload → Telemetry → Telemetry
  | done, telemetry => telemetry
  | field number value rest, telemetry =>
    rest.record layer (recordField telemetry layer number.number value.wireType)
  | group number inner rest, telemetry =>
    let telemetry := recordField telemetry layer number.number 3
    rest.record layer
      (inner.record layer { telemetry with groupsSkipped := telemetry.groupsSkipped + 1 })

end Payload

/-! ## Reading one field -/

theorem or_shiftLeft (value group shift : ℕ) (h : value < 2 ^ shift) :
    value ||| group <<< shift = value + group * 2 ^ shift := by
  rw [Nat.or_comm, ← Nat.shiftLeft_add_eq_or_of_lt h, Nat.shiftLeft_eq, Nat.add_comm]

theorem varintLoop_groups (number value shift pos : ℕ) (rest : List UInt8) (hvalue : value < 2 ^ shift)
    (hfits : shift + 7 * (Wire.groups number).length ≤ 70) :
    varintLoop value shift pos (Wire.groups number ++ rest)
      = some (value + number * 2 ^ shift, pos + (Wire.groups number).length) := by
  induction number using Wire.groups_induction generalizing value shift pos with
  | last number hlt =>
      have hbyte : (UInt8.ofNat number).toNat = number := by
        rw [UInt8.toNat_ofNat']
        omega
      rw [Wire.groups_of_lt hlt] at hfits ⊢
      rw [List.length_singleton] at hfits
      rw [List.singleton_append, varintLoop, if_pos (by omega),
        if_pos ((Wire.and_80_eq_zero_iff _).mpr (by omega)), Wire.and_7f, hbyte, Nat.mod_eq_of_lt hlt,
        or_shiftLeft value number shift hvalue]
      rfl
  | more number hle ih =>
      have hbyte : (UInt8.ofNat (128 + number % 128)).toNat = 128 + number % 128 := by
        rw [UInt8.toNat_ofNat']
        omega
      have hmarked : ¬ UInt8.ofNat (128 + number % 128) &&& 0x80 = 0 := by
        rw [Wire.and_80_eq_zero_iff]
        omega
      have hrest := Wire.length_groups_pos (number / 128)
      rw [Wire.groups_of_le hle, List.length_cons] at hfits
      -- the value read so far stays below the next group
      have hnext : value + number % 128 * 2 ^ shift < 2 ^ (shift + 7) := by
        have hgroup : number % 128 * 2 ^ shift ≤ 127 * 2 ^ shift :=
          Nat.mul_le_mul_right _ (by omega)
        rw [pow_add]
        omega
      have hsplit : number % 128 * 2 ^ shift + number / 128 * 2 ^ (shift + 7) = number * 2 ^ shift := by
        calc number % 128 * 2 ^ shift + number / 128 * 2 ^ (shift + 7)
            = (number % 128 + 128 * (number / 128)) * 2 ^ shift := by ring
          _ = number * 2 ^ shift := by rw [Nat.mod_add_div]
      rw [Wire.groups_of_le hle, List.cons_append, varintLoop, if_pos (by omega), if_neg hmarked,
        Wire.and_7f, hbyte, show (128 + number % 128) % 128 = number % 128 by omega,
        or_shiftLeft _ _ _ hvalue, ih _ _ _ hnext (by omega), Nat.add_assoc, hsplit, List.length_cons,
        show pos + 1 + (Wire.groups (number / 128)).length = pos + ((Wire.groups (number / 128)).length + 1)
          by omega]

theorem readProtoVarint_at (raw : List UInt8) (offset number : ℕ) (layer : String) (hlt : number < 2 ^ 70)
    (h : Wire.At raw offset (Wire.groups number)) :
    readProtoVarint raw offset layer = .ok (number, offset + (Wire.groups number).length) := by
  obtain ⟨after, hafter⟩ := h
  have hlength : (Wire.groups number).length ≤ 10 :=
    Wire.length_groups_le number 10 (by decide) (lt_of_lt_of_eq hlt (by norm_num))
  unfold readProtoVarint
  rw [← hafter, varintLoop_groups number 0 0 offset after (by norm_num) (by omega)]
  simp

theorem readSlice_at (raw : List UInt8) (offset : ℕ) (bytes : List UInt8) (error : TolerantProtoError)
    (hoffset : offset ≤ raw.length) (h : Wire.At raw offset bytes) :
    readSlice raw offset bytes.length error = .ok (.bytes bytes, offset + bytes.length) := by
  have hroom := h.length_le hoffset
  unfold readSlice
  rw [if_neg (by omega), h.slice]

theorem tag_parts (number wireType : ℕ) (hwire : wireType < 8) :
    (number * 8 + wireType) >>> 3 = number ∧ (number * 8 + wireType) &&& 0x07 = wireType := by
  constructor
  · rw [Nat.shiftRight_eq_div_pow]
    omega
  · rw [show (0x07 : ℕ) = 2 ^ 3 - 1 by rfl, Nat.and_two_pow_sub_one_eq_mod]
    omega

theorem readProtoVarint_tag (raw : List UInt8) (offset : ℕ) (layer : String) (number : FieldNumber)
    (wireType : ℕ) (hwire : wireType < 8) (h : Wire.At raw offset (encodeTag number wireType)) :
    readProtoVarint raw offset layer
      = .ok (number.number * 8 + wireType, offset + (encodeTag number wireType).length) := by
  have hnumber := number.fits
  exact readProtoVarint_at raw offset _ layer (by omega) h

theorem WireValue.wireType_lt (value : WireValue) : value.wireType < 8 := by
  cases value <;> simp [WireValue.wireType]

section

variable (raw : List UInt8)

section

variable (layer : String)

theorem readPayload_at (number : FieldNumber) (value : WireValue)
    (offset : ℕ) (hoffset : offset ≤ raw.length) (h : Wire.At raw offset value.encode) :
    readPayload raw layer (number.number * 8 + value.wireType) offset
      = .ok (value.shown, offset + value.encode.length) := by
  obtain ⟨hnumber, hwire⟩ := tag_parts number.number value.wireType value.wireType_lt
  unfold readPayload
  simp only [hnumber, hwire]
  cases value with
  | varint value =>
      have hlt : value.toNat < 2 ^ 70 := lt_trans value.toNat_lt (by decide)
      simp only [WireValue.wireType, readProtoVarint_at raw offset _ layer hlt h]
      rfl
  | fixed64 bytes length =>
      simp only [WireValue.wireType]
      rw [← length, readSlice_at raw offset bytes _ hoffset h]
      rfl
  | delimited bytes fits =>
      obtain ⟨hlength, hbytes⟩ := (Wire.at_append _ _ _ _).mp h
      have hlt : bytes.length < 2 ^ 70 := lt_trans fits (by decide)
      simp only [WireValue.wireType, readProtoVarint_at raw offset _ layer hlt hlength]
      rw [readSlice_at raw _ bytes _ (hlength.length_le hoffset) hbytes]
      simp only [WireValue.shown, WireValue.encode, List.length_append, Nat.add_assoc]
  | fixed32 bytes length =>
      simp only [WireValue.wireType]
      rw [← length, readSlice_at raw offset bytes _ hoffset h]
      rfl

theorem readNext_field (offset : ℕ) (endGroup : Option ℕ)
    (telemetry : Telemetry) (number : FieldNumber) (value : WireValue) (hoffset : offset ≤ raw.length)
    (h : Wire.At raw offset (encodeTag number value.wireType ++ value.encode)) :
    readNext raw layer offset endGroup telemetry
      = (.ok (.field ⟨number.number, value.wireType, value.shown⟩
          (offset + (encodeTag number value.wireType ++ value.encode).length)),
        recordField telemetry layer number.number value.wireType) := by
  obtain ⟨htag, hvalue⟩ := (Wire.at_append _ _ _ _).mp h
  obtain ⟨hnumber, hwire⟩ := tag_parts number.number value.wireType value.wireType_lt
  have hopens : value.wireType ≠ 4 ∧ value.wireType ≠ 3 := by
    cases value <;> simp [WireValue.wireType]
  unfold readNext
  rw [readProtoVarint_tag raw offset layer number _ value.wireType_lt htag]
  simp only [hnumber, hwire]
  rw [if_neg (Nat.pos_iff_ne_zero.mp number.positive), if_neg hopens.1, if_neg hopens.2,
    readPayload_at raw layer number value _ (htag.length_le hoffset) hvalue, List.length_append,
    Nat.add_assoc]

theorem readNext_group (offset : ℕ) (endGroup : Option ℕ)
    (telemetry : Telemetry) (number : FieldNumber) (h : Wire.At raw offset (encodeTag number 3)) :
    readNext raw layer offset endGroup telemetry
      = (.ok (.group number.number (offset + (encodeTag number 3).length)),
        { recordField telemetry layer number.number 3 with
          groupsSkipped := (recordField telemetry layer number.number 3).groupsSkipped + 1 }) := by
  obtain ⟨hnumber, hwire⟩ := tag_parts number.number 3 (by decide)
  unfold readNext
  rw [readProtoVarint_tag raw offset layer number 3 (by decide) h]
  simp only [hnumber, hwire]
  rw [if_neg (Nat.pos_iff_ne_zero.mp number.positive)]
  rfl

theorem readNext_close (offset : ℕ) (telemetry : Telemetry)
    (number : FieldNumber) (h : Wire.At raw offset (encodeTag number 4)) :
    readNext raw layer offset (some number.number) telemetry
      = (.ok (.close (offset + (encodeTag number 4).length)), telemetry) := by
  obtain ⟨hnumber, hwire⟩ := tag_parts number.number 4 (by decide)
  unfold readNext
  rw [readProtoVarint_tag raw offset layer number 4 (by decide) h]
  simp only [hnumber, hwire]
  rw [if_neg (Nat.pos_iff_ne_zero.mp number.positive)]
  simp

end

/-! ## Reading payloads -/

theorem lt_length_of_tag (offset : ℕ) (number : FieldNumber) (wireType : ℕ)
    (hoffset : offset ≤ raw.length) (h : Wire.At raw offset (encodeTag number wireType)) :
    offset < raw.length := by
  have hroom := h.length_le hoffset
  have hpos : 0 < (encodeTag number wireType).length := Wire.length_groups_pos _
  omega

end

/-- The loop reads a payload from where it stands and comes to what it comes to from its end on, with the
    fields added and the telemetry recorded. -/
theorem fieldsLoop_payload (payload : Payload) (raw : List UInt8) (layer : String) (frames offset : ℕ)
    (endGroup : Option ℕ) (depth : ℕ) (fields : List ProtoField) (telemetry : Telemetry)
    (outcome : WireOutcome) (hoffset : offset ≤ raw.length) (hnesting : payload.nesting + depth ≤ 16)
    (hframes : payload.nesting ≤ frames) (hat : Wire.At raw offset payload.encode)
    (h : ∃ rounds, fieldsLoop raw layer rounds frames (offset + payload.encode.length) endGroup depth
      (fields ++ payload.fields) (payload.record layer telemetry) = some outcome) :
    ∃ rounds, fieldsLoop raw layer rounds frames offset endGroup depth fields telemetry = some outcome := by
  induction payload generalizing frames offset endGroup depth fields telemetry outcome with
  | done =>
      obtain ⟨rounds, h⟩ := h
      refine ⟨rounds, ?_⟩
      rw [Payload.fields, List.append_nil] at h
      exact h
  | field number value rest ih =>
      obtain ⟨hfield, hrest⟩ := (Wire.at_append _ _ _ _).mp hat
      have hlt := lt_length_of_tag raw offset number _ hoffset ((Wire.at_append _ _ _ _).mp hfield).1
      rw [Payload.encode, List.length_append, ← Nat.add_assoc, Payload.fields,
        List.append_cons] at h
      obtain ⟨rounds, hloop⟩ := ih frames _ endGroup depth _ _ outcome (hfield.length_le hoffset) hnesting
        hframes hrest h
      refine ⟨rounds + 1, ?_⟩
      unfold fieldsLoop
      rw [if_neg (by omega), readNext_field raw layer offset endGroup telemetry number value hoffset hfield]
      exact hloop
  | group number inner rest ihinner ihrest =>
      rw [Payload.nesting] at hnesting hframes
      obtain ⟨hopen, hat⟩ := (Wire.at_append _ _ _ _).mp hat
      obtain ⟨hinner, hat⟩ := (Wire.at_append _ _ _ _).mp hat
      obtain ⟨hclose, hrest⟩ := (Wire.at_append _ _ _ _).mp hat
      have hlt := lt_length_of_tag raw offset number 3 hoffset hopen
      have hopen' := hopen.length_le hoffset
      have hinner' := hinner.length_le hopen'
      have hclose' := hclose.length_le hinner'
      have hend := lt_length_of_tag raw _ number 4 hinner' hclose
      obtain ⟨frames, rfl⟩ : ∃ frames', frames = frames' + 1 := ⟨frames - 1, by omega⟩
      -- the group's own loop ends at its end tag
      obtain ⟨rounds₁, hgroup⟩ := ihinner frames (offset + (encodeTag number 3).length) (some number.number)
        (depth + 1) [] { recordField telemetry layer number.number 3 with
          groupsSkipped := (recordField telemetry layer number.number 3).groupsSkipped + 1 }
        (.ok (inner.fields, offset + (encodeTag number 3).length + inner.encode.length +
          (encodeTag number 4).length), _) hopen' (by omega) (by omega) hinner
        ⟨1, by unfold fieldsLoop; rw [if_neg (by omega), readNext_close raw layer _ _ number hclose]; rfl⟩
      have hlength : (Payload.group number inner rest).encode.length
          = (encodeTag number 3).length + inner.encode.length + (encodeTag number 4).length +
            rest.encode.length := by
        simp only [Payload.encode, List.length_append]
        omega
      rw [hlength] at h
      simp only [← Nat.add_assoc] at h
      obtain ⟨rounds₂, hafter⟩ := ihrest (frames + 1) _ endGroup depth fields _ outcome hclose' (by omega)
        (by omega) hrest h
      -- both loops with the rounds of the longer one
      refine ⟨max rounds₁ rounds₂ + 1, ?_⟩
      unfold fieldsLoop
      rw [if_neg (by omega), readNext_group raw layer offset endGroup telemetry number hopen]
      simp only
      unfold enterAt
      rw [if_neg (by omega), fieldsLoop_mono _ _ _ _ _ _ _ _ _ _ _ _ (le_max_left rounds₁ rounds₂)
        (le_refl frames) hgroup]
      exact fieldsLoop_mono _ _ _ _ _ _ _ _ _ _ _ _ (le_max_right rounds₁ rounds₂) (le_refl _) hafter

/-! ## The main result -/

/-- **The parser ends, and reads payloads back.** On every byte string it comes to the same outcome, fields
    or its own error, whatever the bounds are from one round for every byte and one more and seventeen
    nested calls on. The standard encoding of a payload whose groups nest at most sixteen deep is read as
    exactly the fields outside groups, in order. -/
theorem payloads_read_back (layer : String) (telemetry : Telemetry) :
    (∀ raw : List UInt8, ∃ outcome, ∀ rounds frames, raw.length < rounds → 17 ≤ frames →
      readProtoFields rounds frames raw layer telemetry = some outcome) ∧
    ∀ payload : Payload, payload.nesting ≤ 16 → ∀ rounds frames, payload.encode.length < rounds →
      17 ≤ frames → readProtoFields rounds frames payload.encode layer telemetry
        = some (.ok payload.fields, payload.record layer telemetry) := by
  constructor
  · intro raw
    obtain ⟨result, hresult⟩ := fieldsLoop_total raw layer (raw.length + 1) 17 0 none 0 [] telemetry
      (by omega) (by omega) (le_refl 17)
    have hloop : ∀ rounds frames, raw.length < rounds → 17 ≤ frames →
        fieldsLoop raw layer rounds frames 0 none 0 [] telemetry = some result := fun rounds frames hr hf =>
      fieldsLoop_mono _ _ _ _ _ _ _ _ _ _ _ _ hr hf hresult
    rcases result with ⟨error | ⟨fields, offset⟩, telemetry'⟩
    · refine ⟨(.error error, telemetry'), ?_⟩
      intro rounds frames hrounds hframes
      unfold readProtoFields readProtoFieldsUntil enterAt
      rw [if_neg (by omega), hloop rounds frames hrounds hframes]
    · by_cases hend : offset = raw.length
      · refine ⟨(.ok fields, telemetry'), ?_⟩
        intro rounds frames hrounds hframes
        unfold readProtoFields readProtoFieldsUntil enterAt
        rw [if_neg (by omega), hloop rounds frames hrounds hframes]
        exact if_neg (not_not_intro hend)
      · refine ⟨(.error { message := "trailing protobuf bytes", layer := layer, offset := some offset },
          telemetry'), ?_⟩
        intro rounds frames hrounds hframes
        unfold readProtoFields readProtoFieldsUntil enterAt
        rw [if_neg (by omega), hloop rounds frames hrounds hframes]
        exact if_pos hend
  · intro payload hnesting rounds frames hrounds hframes
    have hat : Wire.At payload.encode 0 payload.encode := by
      have hself := Wire.at_zero payload.encode []
      rwa [List.append_nil] at hself
    -- the loop at the end of the payload returns what it has
    obtain ⟨rounds', hread⟩ := fieldsLoop_payload payload payload.encode layer frames 0 none 0 [] telemetry
      (.ok (payload.fields, payload.encode.length), payload.record layer telemetry) (Nat.zero_le _) hnesting
      (by omega) hat ⟨1, by unfold fieldsLoop; rw [Nat.zero_add, if_pos (le_refl _)]; rfl⟩
    obtain ⟨outcome, houtcome⟩ := fieldsLoop_total payload.encode layer rounds frames 0 none 0 [] telemetry
      (by omega) (by omega) (by omega)
    obtain rfl := fieldsLoop_unique _ _ _ _ _ _ _ _ _ _ _ _ hread houtcome
    unfold readProtoFields readProtoFieldsUntil enterAt
    rw [if_neg (by omega), houtcome]
    exact if_neg (not_not_intro rfl)

/-- A field, a group in a group, and a field behind them. -/
def nestedPayload : Payload :=
  .field ⟨8, by decide, by decide⟩ (.varint 300)
    (.group ⟨1, by decide, by decide⟩
      (.group ⟨2, by decide, by decide⟩ (.field ⟨3, by decide, by decide⟩ (.varint 1) .done) .done)
      (.field ⟨5, by decide, by decide⟩ (.delimited [1, 2, 3] (by decide)) .done))

theorem payloads_read_back_nestedPayload :
    readProtoFields 20 17 nestedPayload.encode "frame" {}
      = some (.ok nestedPayload.fields, nestedPayload.record "frame" {}) :=
  (payloads_read_back "frame" {}).2 nestedPayload (by decide) 20 17 (by decide +kernel) (le_refl 17)

end TradingHarness
