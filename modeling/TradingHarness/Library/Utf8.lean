import Mathlib.Data.List.Basic

set_option autoImplicit false

/-! # Text as bytes

The UTF-8 bytes of a text and the text of bytes. Bytes that are cut off are those of a beginning of the text, or
they end inside a character and are those of no text. -/

namespace Utf8

/-- `text.encode("utf-8")` -/
def encode (text : List Char) : List UInt8 := text.flatMap String.utf8EncodeChar

/-- `bytes.decode("utf-8")` -/
def decode (bytes : List UInt8) : Option (List Char) := bytes.toByteArray.utf8Decode?.map Array.toList

variable (char : Char) (text : List Char)

theorem encode_append (more : List Char) : encode (text ++ more) = encode text ++ encode more :=
  List.flatMap_append

theorem encode_cons :
    encode (char :: text) = String.utf8EncodeChar char ++ encode text := List.flatMap_cons

theorem toByteArray_encode : (encode text).toByteArray = text.utf8Encode := rfl

theorem decode_encode : decode (encode text) = some text := by
  rw [decode, toByteArray_encode, List.utf8Decode?_utf8Encode, Option.map_some]

theorem encodeChar_ne_nil : String.utf8EncodeChar char ≠ [] := by
  rw [← List.length_pos_iff, String.length_utf8EncodeChar]
  exact Char.utf8Size_pos char

theorem encode_ne_nil {text : List Char} (h : text ≠ []) : encode text ≠ [] := by
  obtain ⟨char, rest, rfl⟩ := List.exists_cons_of_ne_nil h
  rw [encode_cons]
  exact List.append_ne_nil_of_left_ne_nil (encodeChar_ne_nil char) _

theorem char_eq_of_append {char other : Char} {bytes more : List UInt8}
    (h : String.utf8EncodeChar char ++ bytes = String.utf8EncodeChar other ++ more) : char = other := by
  have hbytes : ∀ (first : Char) (rest : List UInt8), (String.utf8EncodeChar first ++ rest).toByteArray
      = [first].utf8Encode ++ rest.toByteArray := by
    intro first rest
    rw [List.toByteArray_append, ← List.flatMap_singleton String.utf8EncodeChar first]
    rfl
  have hchar := congrArg (fun all => ByteArray.utf8DecodeChar? (List.toByteArray all) 0) h
  rw [hbytes, hbytes] at hchar
  rw [List.utf8DecodeChar?_utf8Encode_singleton_append, List.utf8DecodeChar?_utf8Encode_singleton_append] at hchar
  exact Option.some.inj hchar

theorem encode_of_decode {bytes : List UInt8} {text : List Char} (h : decode bytes = some text) :
    bytes = encode text := by
  obtain ⟨chars, hchars, rfl⟩ := Option.map_eq_some_iff.mp h
  have hsome : bytes.toByteArray.utf8Decode?.isSome := by rw [hchars]; rfl
  have hbytes := ByteArray.utf8Encode_get_utf8Decode? (b := bytes.toByteArray) (h := hsome)
  have hget : bytes.toByteArray.utf8Decode?.get hsome = chars := by
    simp [hchars]
  rw [hget, ← toByteArray_encode] at hbytes
  exact (List.toByteArray_inj.mp hbytes).symm

/-- Some of the bytes of a character, and not all of them. -/
structure Torn (char : Char) (bytes : List UInt8) : Prop where
  some : bytes ≠ []
  beginning : bytes <+: String.utf8EncodeChar char
  proper : bytes ≠ String.utf8EncodeChar char

/-- **Bytes that end inside a character are those of no text.** -/
theorem decode_torn {char : Char} {bytes : List UInt8} (h : Torn char bytes) (text : List Char) :
    decode (encode text ++ bytes) = none := by
  rw [Option.eq_none_iff_forall_ne_some]
  intro whole hwhole
  have hbytes := encode_of_decode hwhole
  clear hwhole
  induction text generalizing whole with
  | nil =>
      obtain ⟨missing, hmissing⟩ := h.beginning
      rcases whole with _ | ⟨first, rest⟩
      · exact h.some hbytes
      · -- the bytes begin with a whole character, which is the one that is torn
        rw [show encode [] = [] from rfl, List.nil_append, encode_cons] at hbytes
        have hsame : first = char := by
          refine @char_eq_of_append first char (encode rest ++ missing) [] ?_
          rw [← List.append_assoc, ← hbytes, hmissing, List.append_nil]
        rw [hsame] at hbytes
        refine h.proper (h.beginning.eq_of_length_le ?_)
        rw [hbytes, List.length_append]
        exact Nat.le_add_right _ _
  | cons first rest ih =>
      rw [encode_cons, List.append_assoc] at hbytes
      rcases whole with _ | ⟨other, others⟩
      · exact encodeChar_ne_nil first (List.append_eq_nil_iff.mp hbytes).1
      · rw [encode_cons] at hbytes
        obtain rfl := char_eq_of_append hbytes
        exact ih others (List.append_cancel_left hbytes)

/-- **Cut bytes of a text are the bytes of a beginning of it, behind which part of a character may follow.** -/
theorem take_encode (count : ℕ) :
    ∃ before after, text = before ++ after
      ∧ ((encode text).take count = encode before
        ∨ ∃ char rest torn, after = char :: rest ∧ Torn char torn
          ∧ (encode text).take count = encode before ++ torn) := by
  induction text generalizing count with
  | nil => exact ⟨[], [], rfl, Or.inl (by simp [encode])⟩
  | cons char text ih =>
      rw [encode_cons]
      by_cases hcount : (String.utf8EncodeChar char).length ≤ count
      · obtain ⟨before, after, rfl, hcut⟩ := ih (count - (String.utf8EncodeChar char).length)
        refine ⟨char :: before, after, rfl, ?_⟩
        rw [List.take_append, List.take_of_length_le hcount, encode_cons]
        rcases hcut with hcut | ⟨next, rest, torn, hafter, htorn, hcut⟩
        · exact Or.inl (by rw [hcut])
        · exact Or.inr ⟨next, rest, torn, hafter, htorn, by rw [hcut, List.append_assoc]⟩
      · refine ⟨[], char :: text, rfl, ?_⟩
        rw [List.take_append_of_le_length (by omega)]
        rcases count with _ | count
        · exact Or.inl rfl
        · refine Or.inr ⟨char, text, _, rfl, ⟨?_, List.take_prefix _ _, ?_⟩, rfl⟩
          · obtain ⟨byte, bytes, hbytes⟩ := List.exists_cons_of_ne_nil (encodeChar_ne_nil char)
            rw [hbytes, List.take_succ_cons]
            exact List.cons_ne_nil _ _
          · intro hall
            have hlength := congrArg List.length hall
            rw [List.length_take] at hlength
            omega

/-! ## Text with replacements -/

/-- The bytes that may follow: how many are missing, the bounds of the next one, and the value of those before. -/
structure Pending where
  missing : ℕ
  low : ℕ
  high : ℕ
  value : ℕ

/-- What follows a first byte of several. -/
def pendingOf (byte : ℕ) : Option Pending :=
  if byte < 0xC2 then none
  else if byte < 0xE0 then some ⟨1, 0x80, 0xBF, byte - 0xC0⟩
  else if byte = 0xE0 then some ⟨2, 0xA0, 0xBF, 0⟩
  else if byte = 0xED then some ⟨2, 0x80, 0x9F, byte - 0xE0⟩
  else if byte < 0xF0 then some ⟨2, 0x80, 0xBF, byte - 0xE0⟩
  else if byte = 0xF0 then some ⟨3, 0x90, 0xBF, 0⟩
  else if byte < 0xF4 then some ⟨3, 0x80, 0xBF, byte - 0xF0⟩
  else if byte = 0xF4 then some ⟨3, 0x80, 0x8F, byte - 0xF0⟩
  else none

def replacement : Char := Char.ofNat 0xFFFD

/-- A byte between characters: what it stands for, or what follows it. -/
def firstByte (byte : ℕ) : List Char × Option Pending :=
  if byte < 0x80 then ([Char.ofNat byte], none)
  else
    match pendingOf byte with
    | some pending => ([], some pending)
    | none => ([replacement], none)

/-- A byte behind others of its character. One that does not belong there ends it. -/
def nextByte (pending : Pending) (byte : ℕ) : List Char × Option Pending :=
  if pending.low ≤ byte ∧ byte ≤ pending.high then
    let value := pending.value * 64 + byte % 64
    if pending.missing = 1 then ([Char.ofNat value], none)
    else ([], some ⟨pending.missing - 1, 0x80, 0xBF, value⟩)
  else (replacement :: (firstByte byte).1, (firstByte byte).2)

/-- `bytes.decode("utf-8", errors="replace")`, behind the bytes that are pending. -/
def decodeReplace (pending : Option Pending) : List UInt8 → List Char
  | [] => if pending.isSome then [replacement] else []
  | byte :: rest =>
    let next := pending.elim (firstByte byte.toNat) (nextByte · byte.toNat)
    next.1 ++ decodeReplace next.2 rest

theorem decodeReplace_pending (pending : Pending) (bytes : List UInt8) : decodeReplace (some pending) bytes ≠ [] := by
  induction bytes generalizing pending with
  | nil => exact List.cons_ne_nil _ _
  | cons byte rest ih =>
      rw [decodeReplace, Option.elim_some, nextByte]
      split
      · split
        · exact List.cons_ne_nil _ _
        · exact ih _
      · exact List.cons_ne_nil _ _

theorem decodeReplace_eq_nil_iff (bytes : List UInt8) : decodeReplace none bytes = [] ↔ bytes = [] := by
  constructor
  · intro h
    rcases bytes with _ | ⟨byte, rest⟩
    · rfl
    · rw [decodeReplace, Option.elim_none, firstByte] at h
      split at h
      · exact absurd h (List.cons_ne_nil _ _)
      · split at h
        · next pending _ => exact absurd h (decodeReplace_pending pending rest)
        · exact absurd h (List.cons_ne_nil _ _)
  · rintro rfl
    rfl

end Utf8
