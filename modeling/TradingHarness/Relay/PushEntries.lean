import TradingHarness.Relay.PushFrames

set_option autoImplicit false

/-! # Entries of a push frame

An entry that is malformed costs no other entry its message, and it is reported. An entry that is read and that has
no id gives no message either, and it is not reported. -/

namespace TradingHarness.Push

variable {Data : Type}

/-! ## Reading does not look at the telemetry -/

variable (raw : List UInt8) (layer : String) (rounds frames offset : ℕ) (endGroup : Option ℕ) (depth : ℕ)

theorem readNext_telemetry (telemetry other : Telemetry) :
    (readNext raw layer offset endGroup telemetry).1 = (readNext raw layer offset endGroup other).1 := by
  unfold readNext
  rcases readProtoVarint raw offset layer with error | ⟨tag, position⟩
  · rfl
  · simp only
    split_ifs
    · rfl
    · rfl
    · rfl
    · rfl
    · rcases readPayload raw layer tag position with error | ⟨value, after⟩
      · rfl
      · rfl

theorem fieldsLoop_telemetry (fields : List ProtoField) (telemetry other : Telemetry) :
    (fieldsLoop raw layer rounds frames offset endGroup depth fields telemetry).map Prod.fst
      = (fieldsLoop raw layer rounds frames offset endGroup depth fields other).map Prod.fst := by
  induction rounds generalizing frames offset endGroup depth fields telemetry other with
  | zero => rfl
  | succ rounds ih =>
      unfold fieldsLoop
      by_cases hlast : raw.length ≤ offset
      · rw [if_pos hlast, if_pos hlast]
        rcases endGroup with _ | number
        · rfl
        · rfl
      · rw [if_neg hlast, if_neg hlast]
        have hsame := readNext_telemetry raw layer offset endGroup telemetry other
        rcases hnext : readNext raw layer offset endGroup telemetry with ⟨next, telemetry₁⟩
        rcases hother : readNext raw layer offset endGroup other with ⟨next', other₁⟩
        rw [hnext, hother] at hsame
        obtain rfl : next = next' := hsame
        rcases next with error | position | ⟨number, position⟩ | ⟨field, position⟩
        · rfl
        · rfl
        · rcases frames with _ | inner
          · rfl
          · have hinner := ih inner position (some number) (depth + 1) [] telemetry₁ other₁
            simp only
            unfold enterAt
            by_cases hdepth : 16 < depth + 1
            · rw [if_pos hdepth, if_pos hdepth]
              rfl
            · rw [if_neg hdepth, if_neg hdepth]
              rcases hfirst : fieldsLoop raw layer rounds inner position (some number) (depth + 1) [] telemetry₁
                with _ | ⟨result, telemetry₂⟩
              · rw [hfirst, Option.map_none, eq_comm, Option.map_eq_none_iff] at hinner
                rw [hinner]
              · rw [hfirst, Option.map_some, eq_comm, Option.map_eq_some_iff] at hinner
                obtain ⟨⟨result', other₂⟩, hinner, rfl⟩ := hinner
                rw [hinner]
                rcases result' with error | ⟨skipped, after⟩
                · rfl
                · exact ih (inner + 1) after endGroup depth fields telemetry₂ other₂
        · exact ih frames position endGroup depth (fields ++ [field]) telemetry₁ other₁

theorem readProtoFields_telemetry (raw : List UInt8) (layer : String)
    (telemetry other : Telemetry) :
    (readProtoFields rounds frames raw layer telemetry).map Prod.fst
      = (readProtoFields rounds frames raw layer other).map Prod.fst := by
  have hloop := fieldsLoop_telemetry raw layer rounds frames 0 none 0 [] telemetry other
  unfold readProtoFields readProtoFieldsUntil enterAt
  rw [if_neg (by omega), if_neg (by omega)]
  rcases hfirst : fieldsLoop raw layer rounds frames 0 none 0 [] telemetry with _ | ⟨result, telemetry'⟩
  · rw [hfirst, Option.map_none, eq_comm, Option.map_eq_none_iff] at hloop
    rw [hloop]
  · rw [hfirst, Option.map_some, eq_comm, Option.map_eq_some_iff] at hloop
    obtain ⟨⟨result', other'⟩, hloop, rfl⟩ := hloop
    rw [hloop]
    rcases result' with error | ⟨fields, offset⟩
    · rfl
    · simp only
      split_ifs
      · rfl
      · rfl

/-- The fields of a payload, where it is read. -/
def fieldsOf (raw : List UInt8) (layer : String) : Option (List ProtoField) := (readFields raw layer {}).1.toOption

theorem readFields_telemetry (telemetry other : Telemetry) :
    (readFields raw layer telemetry).1 = (readFields raw layer other).1 := by
  have hsame := readProtoFields_telemetry (raw.length + 1) 17 raw layer telemetry other
  unfold readFields
  rw [← Option.some_inj, ← Option.map_some, ← Option.map_some, Option.some_get, Option.some_get]
  exact hsame

theorem readFields_of_none {raw : List UInt8} {layer : String} (h : fieldsOf raw layer = none)
    (telemetry : Telemetry) : ∃ error after, readFields raw layer telemetry = (.error error, after) := by
  unfold fieldsOf at h
  rw [readFields_telemetry raw layer {} telemetry] at h
  rcases hread : readFields raw layer telemetry with ⟨error | fields, after⟩
  · exact ⟨error, after, rfl⟩
  · rw [hread] at h
    exact absurd h (by simp [Except.toOption])

theorem readFields_of_some {raw : List UInt8} {layer : String} {fields : List ProtoField}
    (h : fieldsOf raw layer = some fields) (telemetry : Telemetry) :
    ∃ after, readFields raw layer telemetry = (.ok fields, after) := by
  unfold fieldsOf at h
  rw [readFields_telemetry raw layer {} telemetry] at h
  rcases hread : readFields raw layer telemetry with ⟨error | others, after⟩
  · rw [hread] at h
    exact absurd h (by simp [Except.toOption])
  · rw [hread] at h
    obtain rfl : others = fields := by simpa [Except.toOption] using h
    exact ⟨after, rfl⟩

/-! ## One entry -/

/-- The fields of the entity of an entry, where its layers are read. -/
def entityOf (entryRaw : List UInt8) : Option (List ProtoField) := do
  let entry ← fieldsOf entryRaw "entry"
  let messageRaw ← firstBytes entry 2
  fieldsOf messageRaw "entity"

/-- Some layer of the entry is malformed. -/
abbrev Malformed (entryRaw : List UInt8) : Prop := entityOf entryRaw = none

/-- The message of an entry. -/
def entryMessage (host : ContentHost Data) (entryRaw : List UInt8) : Option (Message Data) :=
  ((entityOf entryRaw).map (messageOf host)).filter (fun message => decide (message.msgId ≠ []))

variable (host : ContentHost Data) (fields : List ProtoField) (state : PushState Data)

theorem caught_entryErrors (error : TolerantProtoError) (telemetry : Telemetry) :
    (state.caught error telemetry).entryErrors ≠ [] := by
  unfold PushState.caught
  split
  · exact List.append_ne_nil_of_right_ne_nil _ (List.cons_ne_nil _ _)
  · next hfull =>
      rintro hnil
      rw [hnil] at hfull
      exact hfull (by simp)

theorem entry_malformed {entryRaw : List UInt8}
    (h : Malformed entryRaw) :
    (state.entry host entryRaw).messages = state.messages ∧ (state.entry host entryRaw).entryErrors ≠ [] := by
  unfold Malformed entityOf at h
  unfold PushState.entry
  rcases hentry : fieldsOf entryRaw "entry" with _ | entry
  · obtain ⟨error, after, hread⟩ := readFields_of_none hentry state.telemetry
    rw [hread]
    exact ⟨rfl, caught_entryErrors state error after⟩
  · obtain ⟨after, hread⟩ := readFields_of_some hentry state.telemetry
    rw [hentry, Option.bind_eq_bind, Option.bind_some] at h
    rw [hread]
    simp only
    rcases hbytes : firstBytes entry 2 with _ | messageRaw
    · exact ⟨rfl, List.append_ne_nil_of_right_ne_nil _ (List.cons_ne_nil _ _)⟩
    · rw [hbytes, Option.bind_eq_bind, Option.bind_some] at h
      obtain ⟨error, last, hentity⟩ := readFields_of_none h after
      simp only [tolerantEntityMessage, hentity]
      exact ⟨rfl, caught_entryErrors state error last⟩

theorem entry_read {entryRaw : List UInt8}
    {fields : List ProtoField} (h : entityOf entryRaw = some fields) :
    (state.entry host entryRaw).messages = state.messages ++ (entryMessage host entryRaw).toList
      ∧ (state.entry host entryRaw).entryErrors = state.entryErrors := by
  have hmessage : entryMessage host entryRaw
      = (some (messageOf host fields)).filter (fun message => decide (message.msgId ≠ [])) := by
    rw [entryMessage, h, Option.map_some]
  unfold entityOf at h
  obtain ⟨entry, hentry, h⟩ := Option.bind_eq_some_iff.mp h
  obtain ⟨messageRaw, hbytes, h⟩ := Option.bind_eq_some_iff.mp h
  obtain ⟨after, hread⟩ := readFields_of_some hentry state.telemetry
  obtain ⟨last, hentity⟩ := readFields_of_some h after
  unfold PushState.entry
  rw [hread, hmessage]
  simp only [hbytes, tolerantEntityMessage, hentity, and_true]
  rw [Option.filter_some]
  by_cases hid : (messageOf host fields).msgId ≠ []
  · rw [if_pos hid, if_pos (decide_eq_true hid), Option.toList_some]
  · rw [if_neg hid, if_neg (by simpa using hid), Option.toList_none, List.append_nil]

/-! ## The loop -/

/-- **The messages of a push are those of its entries, in order, and its errors tell of the malformed ones.** -/
theorem foldl_step :
    (fields.foldl (PushState.step host) state).messages
        = state.messages ++ (fields.filterMap (lengthDelimited 1)).filterMap (entryMessage host)
      ∧ ((fields.foldl (PushState.step host) state).entryErrors ≠ []
        ↔ state.entryErrors ≠ [] ∨ ∃ entryRaw ∈ fields.filterMap (lengthDelimited 1), Malformed entryRaw) := by
  induction fields generalizing state with
  | nil => simp
  | cons field fields ih =>
      rw [List.foldl_cons]
      obtain ⟨hmessages, herrors⟩ := ih (state.step host field)
      rw [hmessages, herrors]
      unfold PushState.step
      rcases hentry : lengthDelimited 1 field with _ | entryRaw
      · rw [List.filterMap_cons_none hentry]
        exact ⟨rfl, Iff.rfl⟩
      · rw [List.filterMap_cons_some hentry, List.exists_mem_cons_iff]
        simp only
        rcases hentity : entityOf entryRaw with _ | entity
        · obtain ⟨hsame, hreported⟩ := entry_malformed host state hentity
          have hnone : entryMessage host entryRaw = none := by
            rw [entryMessage, hentity]
            rfl
          rw [hsame, List.filterMap_cons_none hnone]
          exact ⟨rfl, iff_of_true (Or.inl hreported) (Or.inr (Or.inl hentity))⟩
        · obtain ⟨hadded, hsame⟩ := entry_read host state hentity
          have hread : ¬ Malformed entryRaw := by
            unfold Malformed
            rw [hentity]
            exact Option.some_ne_none entity
          rw [hadded, hsame, or_iff_right hread, List.append_assoc]
          refine ⟨?_, Iff.rfl⟩
          rw [List.filterMap_cons]
          rcases entryMessage host entryRaw with _ | message
          · rfl
          · rfl

/-! ## Ids -/

/-- The entity has an id that is not empty: the last length-delimited field 1 is the one that counts. -/
def HasId (fields : List ProtoField) : Prop :=
  ∃ value, (fields.filterMap (lengthDelimited 1)).getLast? = some value ∧ value ≠ []

theorem entityStrings_id {number : ℕ} (h : entityStrings.lookup number = some "id") : number = 1 := by
  have hmem := Dict.mem_of_lookup entityStrings number "id" h
  simp only [entityStrings, List.mem_cons, Prod.mk.injEq, List.not_mem_nil, or_false] at hmem
  rcases hmem with ⟨hnumber, -⟩ | ⟨-, hname⟩ | ⟨-, hname⟩ | ⟨-, hname⟩ | ⟨-, hname⟩ | ⟨-, hname⟩ | ⟨-, hname⟩
    | ⟨-, hname⟩
  · exact hnumber
  all_goals exact absurd hname (by decide)

theorem put_id (entity : Entity) (field : ProtoField) :
    (entity.put field).texts.lookup "id"
      = ((lengthDelimited 1 field).map protoText).or (entity.texts.lookup "id") := by
  unfold Entity.put lengthDelimited
  rcases field.value with value | value
  · simp only
    split
    · split
      · rfl
      · rfl
    · rfl
  · simp only
    by_cases hwire : field.wireType = 2
    · rw [if_pos hwire]
      by_cases hnumber : field.fieldNumber = 1
      · have hname : entityStrings.lookup field.fieldNumber = some "id" := by
          rw [hnumber]
          rfl
        rw [hname, if_pos (And.intro hnumber hwire)]
        exact Dict.lookup_set_self entity.texts "id" (protoText value)
      · have hnone : ¬ (field.fieldNumber = 1 ∧ field.wireType = 2) := fun h => hnumber h.1
        rw [if_neg hnone, Option.map_none, Option.none_or]
        rcases hname : entityStrings.lookup field.fieldNumber with _ | name
        · simp only
          split
          · rfl
          · rfl
        · have hother : "id" ≠ name := by
            rintro rfl
            exact hnumber (entityStrings_id hname)
          exact Dict.lookup_set_ne entity.texts name (protoText value) "id" hother
    · have hnone : ¬ (field.fieldNumber = 1 ∧ field.wireType = 2) := fun h => hwire h.2
      rw [if_neg hwire, if_neg hnone]
      rfl

theorem foldl_put_id (entity : Entity) :
    (fields.foldl Entity.put entity).texts.lookup "id"
      = ((fields.filterMap (lengthDelimited 1)).getLast?.map protoText).or (entity.texts.lookup "id") := by
  induction fields generalizing entity with
  | nil => rfl
  | cons field fields ih =>
      rw [List.foldl_cons, ih, put_id]
      rcases hfield : lengthDelimited 1 field with _ | value
      · rw [List.filterMap_cons_none hfield, Option.map_none, Option.none_or]
      · rw [List.filterMap_cons_some hfield, List.getLast?_cons]
        rcases (fields.filterMap (lengthDelimited 1)).getLast? with _ | last
        · rfl
        · rfl

theorem msgId_ne_nil_iff :
    (messageOf host fields).msgId ≠ [] ↔ HasId fields := by
  have hid : (messageOf host fields).msgId
      = ((fields.filterMap (lengthDelimited 1)).getLast?.map protoText).getD [] := by
    have hfold := foldl_put_id fields {}
    rw [List.lookup_nil, Option.or_none] at hfold
    exact congrArg (Option.getD · []) hfold
  rw [hid, HasId]
  rcases (fields.filterMap (lengthDelimited 1)).getLast? with _ | value
  · simp
  · simp [protoText, Utf8.decodeReplace_eq_nil_iff]

/-! ## Frames -/

/-- The fields of the push of a frame, where the layers above the entries are read. -/
def pushFields (raw : List UInt8) : Option (List ProtoField) := do
  let frame ← fieldsOf raw "frame"
  let packetRaw ← firstBytes frame 8
  let packetFields ← fieldsOf packetRaw "packet"
  let pushRaw ← firstBytes packetFields 5
  fieldsOf pushRaw "push"

/-- A frame with a push. -/
structure PushFrame where
  raw : List UInt8
  fields : List ProtoField
  reads : pushFields raw = some fields

namespace PushFrame

def entries (frame : PushFrame) : List (List UInt8) := frame.fields.filterMap (lengthDelimited 1)

/-- The fields of the push without the malformed entries. -/
def wellFormedFields (frame : PushFrame) : List ProtoField :=
  frame.fields.filter (fun field => (lengthDelimited 1 field).all (fun entryRaw => (entityOf entryRaw).isSome))

/-- The messages that are returned. -/
def messages (host : ContentHost Data) (frame : PushFrame) : Option (List (Message Data)) :=
  (tolerantWebsocketDecodeWithMeta host frame.raw).toOption.map (fun result => result.2.1)

/-- The telemetry that is returned. -/
def telemetry (host : ContentHost Data) (frame : PushFrame) : Option FrameTelemetry :=
  (tolerantWebsocketDecodeWithMeta host frame.raw).toOption.map (fun result => result.2.2)

theorem decode_eq (frame : PushFrame) :
    ∃ told, frame.messages host = some (frame.entries.filterMap (entryMessage host))
      ∧ frame.telemetry host = some told
      ∧ (told.isPartial = true ↔ ∃ entryRaw ∈ frame.entries, Malformed entryRaw) := by
  have hreads := frame.reads
  unfold pushFields at hreads
  obtain ⟨fields, hframe, hreads⟩ := Option.bind_eq_some_iff.mp hreads
  obtain ⟨packetRaw, hpacketRaw, hreads⟩ := Option.bind_eq_some_iff.mp hreads
  obtain ⟨packetFields, hpacket, hreads⟩ := Option.bind_eq_some_iff.mp hreads
  obtain ⟨pushRaw, hpushRaw, hpush⟩ := Option.bind_eq_some_iff.mp hreads
  obtain ⟨first, hframe⟩ := readFields_of_some hframe {}
  obtain ⟨second, hpacket⟩ := readFields_of_some hpacket first
  obtain ⟨third, hpush⟩ := readFields_of_some hpush second
  obtain ⟨hmessages, herrors⟩ := foldl_step host frame.fields { telemetry := third }
  have hdecode : tolerantWebsocketDecodeWithMeta host frame.raw
      = .ok (packetOf packetFields, (frame.fields.foldl (PushState.step host) { telemetry := third }).messages,
        finalizeTelemetry host (frame.fields.foldl (PushState.step host) { telemetry := third }).telemetry
          (frame.fields.foldl (PushState.step host) { telemetry := third }).entryErrors) := by
    unfold tolerantWebsocketDecodeWithMeta tolerantPushMessages
    rw [hframe]
    simp only [hpacketRaw, hpacket, hpushRaw, hpush]
  generalize frame.fields.foldl (PushState.step host) { telemetry := third } = state at hmessages herrors hdecode
  refine ⟨finalizeTelemetry host state.telemetry state.entryErrors, ?_, ?_, ?_⟩
  · rw [messages, hdecode]
    simp only [Except.toOption, Option.map_some, hmessages, List.nil_append]
    rfl
  · rw [telemetry, hdecode]
    rfl
  · unfold finalizeTelemetry
    rw [Bool.not_eq_true', List.isEmpty_eq_false_iff, herrors]
    exact or_iff_right (fun hne => hne rfl)

/-- The messages are those of the frame without its malformed entries. -/
def Keeps (host : ContentHost Data) (frame : PushFrame) : Prop :=
  ∀ other : PushFrame, other.fields = frame.wellFormedFields → other.messages host = frame.messages host

/-- Where an entry gives no message, the frame is partial. -/
def Reports (host : ContentHost Data) (frame : PushFrame) : Prop :=
  ∀ messages telemetry, frame.messages host = some messages → frame.telemetry host = some telemetry →
    messages.length < frame.entries.length → telemetry.isPartial = true

/-- **Malformed entries cost the others nothing.** -/
theorem keeps (frame : PushFrame) : frame.Keeps host := by
  intro other hother
  obtain ⟨-, hmessages, -⟩ := decode_eq host frame
  obtain ⟨-, hothers, -⟩ := decode_eq host other
  rw [hmessages, hothers, entries, entries, hother, wellFormedFields]
  congr 1
  generalize frame.fields = fields
  induction fields with
  | nil => rfl
  | cons field fields ih =>
      rcases hentry : lengthDelimited 1 field with _ | entryRaw
      · rw [List.filter_cons_of_pos (by rw [hentry]; rfl), List.filterMap_cons_none hentry,
          List.filterMap_cons_none hentry, ih]
      · rw [List.filterMap_cons_some hentry]
        rcases hentity : entityOf entryRaw with _ | entity
        · have hnone : entryMessage host entryRaw = none := by
            rw [entryMessage, hentity]
            rfl
          rw [List.filter_cons_of_neg (by simp [hentry, hentity]), ih, List.filterMap_cons_none hnone]
        · rw [List.filter_cons_of_pos (by simp [hentry, hentity]), List.filterMap_cons_some hentry,
            List.filterMap_cons, List.filterMap_cons, ih]

end PushFrame

/-- **Every entry without a message is reported exactly where all that are read have an id, or one is malformed
    anyway.** -/
theorem push_frame_reports_iff (host : ContentHost Data) (frame : PushFrame) :
    frame.Keeps host ∧ frame.Reports host ↔
      (∀ entryRaw ∈ frame.entries, ∀ fields, entityOf entryRaw = some fields → HasId fields)
        ∨ ∃ entryRaw ∈ frame.entries, Malformed entryRaw := by
  rw [and_iff_right (frame.keeps host)]
  obtain ⟨told, hmessages, htelemetry, hpartial⟩ := frame.decode_eq host
  have hreports : frame.Reports host ↔
      ((frame.entries.filterMap (entryMessage host)).length < frame.entries.length → told.isPartial = true) := by
    constructor
    · exact fun h => h _ _ hmessages htelemetry
    · intro h messages telemetry hothers hother
      rw [← Option.some.inj (hmessages.symm.trans hothers), ← Option.some.inj (htelemetry.symm.trans hother)]
      exact h
  rw [hreports, hpartial]
  by_cases hmalformed : ∃ entryRaw ∈ frame.entries, Malformed entryRaw
  · exact iff_of_true (fun _ => hmalformed) (Or.inr hmalformed)
  · have hlength : (frame.entries.filterMap (entryMessage host)).length < frame.entries.length ↔
        ¬ ∀ entryRaw ∈ frame.entries, (entryMessage host entryRaw).isSome := by
      rw [← List.filterMap_length_eq_length]
      exact (List.length_filterMap_le _ _).lt_iff_ne
    rw [or_iff_left hmalformed, hlength, not_imp_comm]
    refine (imp_iff_right hmalformed).trans (forall₂_congr (fun entryRaw hentry => ?_))
    rcases hentity : entityOf entryRaw with _ | entity
    · exact absurd ⟨entryRaw, hentry, hentity⟩ hmalformed
    · rw [entryMessage, hentity, Option.map_some, Option.filter_some]
      simp only [Option.some_inj, forall_eq', ← msgId_ne_nil_iff host, decide_eq_true_eq]
      split
      · next hid => exact iff_of_true rfl hid
      · next hid => exact iff_of_false (by simp) hid

/-! ## An entry without an id -/

/-- A decoder that takes every content. -/
def plainHost : ContentHost Unit where
  sha256 _ := List.replicate 64 '0'
  msgTypeNames _ := none
  chatTypeNames _ := none
  decodeMessageContent _ _ := .ok ("", none)
  enrichCardContent _ _ := .ok none

/-- A frame of one entry, whose entity has a sender and no id. -/
def unnamedFrame : PushFrame where
  raw := [0x42, 11, 0x18, 6, 0x2A, 7, 0x0A, 5, 0x12, 3, 0x1A, 1, 0x75]
  fields := [⟨1, 2, .bytes [0x12, 3, 0x1A, 1, 0x75]⟩]
  reads := by decide +kernel

theorem unnamed_not_reported : ¬ (unnamedFrame.Keeps plainHost ∧ unnamedFrame.Reports plainHost) := by
  rintro ⟨-, hreports⟩
  obtain ⟨told, hmessages, htelemetry, hpartial⟩ := unnamedFrame.decode_eq plainHost
  have hentry : entityOf [0x12, 3, 0x1A, 1, 0x75] = some [⟨3, 2, .bytes [0x75]⟩] := by
    decide +kernel
  have hentries : unnamedFrame.entries = [[0x12, 3, 0x1A, 1, 0x75]] := by
    decide +kernel
  have hnone : entryMessage plainHost [0x12, 3, 0x1A, 1, 0x75] = none := by
    rw [entryMessage, hentry]
    decide +kernel
  rw [hentries, List.filterMap_cons_none hnone, List.filterMap_nil] at hmessages
  obtain ⟨entryRaw, hmem, hmalformed⟩ := hpartial.mp
    (hreports [] told hmessages htelemetry (by rw [hentries]; decide))
  rw [hentries, List.mem_singleton] at hmem
  rw [hmem, Malformed, hentry] at hmalformed
  exact absurd hmalformed (by simp)

end TradingHarness.Push
