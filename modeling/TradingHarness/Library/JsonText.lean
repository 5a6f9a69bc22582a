import Mathlib.Data.Char
import Mathlib.Data.List.Lex
import Mathlib.Data.List.TakeWhile
import TradingHarness.Library.Dict

set_option autoImplicit false

/-! # JSON texts

Compact JSON text of a value, with characters outside ASCII left as they are, and a reader of JSON texts.
What is written is read back, and no proper beginning of an object's text is a JSON text. -/

namespace JsonText

/-- A value. A number or a constant is the word that is written for it; the fields of an object are in the
    order they are written in. -/
inductive Value
  | word (text : List Char)
  | str (text : List Char)
  | arr (items : List Value)
  | obj (fields : List (List Char × Value))

/-! ## Words -/

def isBare (char : Char) : Bool := char.isAlphanum || char == '+' || char == '-' || char == '.'

/-- `[eE][-+]?[0-9]+`, or nothing. -/
def isExponent : List Char → Bool
  | [] => true
  | mark :: rest =>
    let digits := match rest with
      | '+' :: digits => digits
      | '-' :: digits => digits
      | digits => digits
    (mark == 'e' || mark == 'E') && !digits.isEmpty && digits.all Char.isDigit

/-- `\.[0-9]+` or nothing, and the exponent. -/
def isFraction : List Char → Bool
  | '.' :: digit :: rest => digit.isDigit && isExponent (rest.dropWhile Char.isDigit)
  | rest => isExponent rest

/-- `-?(0|[1-9][0-9]*)`, and the fraction. -/
def isNumber (text : List Char) : Bool :=
  let unsigned := match text with
    | '-' :: unsigned => unsigned
    | unsigned => unsigned
  match unsigned with
  | '0' :: rest => isFraction rest
  | digit :: rest => digit.isDigit && isFraction (rest.dropWhile Char.isDigit)
  | [] => false

/-- The constants, those of floats included that Python writes and reads. -/
def constants : List (List Char) :=
  ["null", "true", "false", "NaN", "Infinity", "-Infinity"].map String.toList

/-- The text of a number or a constant. -/
def isWord (text : List Char) : Bool := text.all isBare && (decide (text ∈ constants) || isNumber text)

/-! ## Writing -/

def hexDigit (number : ℕ) : Char := (Nat.toDigits 16 number).headD '0'

/-- A character of a string: quotes, backslashes and control characters are escaped, nothing else. -/
def escape (char : Char) : List Char :=
  if char = '"' then ['\\', '"']
  else if char = '\\' then ['\\', '\\']
  else if char = '\n' then ['\\', 'n']
  else if char = '\r' then ['\\', 'r']
  else if char = '\t' then ['\\', 't']
  else if char.toNat = 8 then ['\\', 'b']
  else if char.toNat = 12 then ['\\', 'f']
  else if char.toNat < 32 then
    ['\\', 'u', '0', '0', hexDigit (char.toNat / 16), hexDigit (char.toNat % 16)]
  else [char]

def dumpsString (text : List Char) : List Char := '"' :: (text.flatMap escape ++ ['"'])

mutual

/-- The compact text of a value. -/
def dumps : Value → List Char
  | .word text => text
  | .str text => dumpsString text
  | .arr items => '[' :: ((dumpsItems items).drop 1 ++ [']'])
  | .obj fields => '{' :: ((dumpsFields fields).drop 1 ++ ['}'])
termination_by structural value => value

/-- Items, each behind a comma. -/
def dumpsItems : List Value → List Char
  | [] => []
  | item :: rest => ',' :: (dumps item ++ dumpsItems rest)
termination_by structural items => items

/-- Fields, each behind a comma. -/
def dumpsFields : List (List Char × Value) → List Char
  | [] => []
  | field :: rest => ',' :: (dumpsField field ++ dumpsFields rest)
termination_by structural fields => fields

def dumpsField : List Char × Value → List Char
  | (key, value) => dumpsString key ++ ':' :: dumps value
termination_by structural field => field

end

/-! ## Reading -/

def isSpace (char : Char) : Bool := char ∈ [' ', '\t', '\n', '\r']

def skipSpace (text : List Char) : List Char := text.dropWhile isSpace

/-- The value of a hexadecimal digit. -/
def hexValue (char : Char) : Option ℕ :=
  if char.isDigit then some (char.toNat - 48)
  else if 97 ≤ char.toNat ∧ char.toNat ≤ 102 then some (char.toNat - 87)
  else if 65 ≤ char.toNat ∧ char.toNat ≤ 70 then some (char.toNat - 55)
  else none

/-- The character of a `\u` escape. A surrogate is none. -/
def unicode (a b c d : Char) : Option Char := do
  let a ← hexValue a
  let b ← hexValue b
  let c ← hexValue c
  let d ← hexValue d
  let code := a * 4096 + b * 256 + c * 16 + d
  if code < 0xD800 ∨ 0xDFFF < code then some (Char.ofNat code) else none

/-- The character of a short escape. -/
def unescape : Char → Option Char
  | '"' => some '"'
  | '\\' => some '\\'
  | '/' => some '/'
  | 'b' => some (Char.ofNat 8)
  | 'f' => some (Char.ofNat 12)
  | 'n' => some '\n'
  | 'r' => some '\r'
  | 't' => some '\t'
  | _ => none

/-- A string behind its opening quote, and what follows the closing one. -/
def parseString : List Char → Option (List Char × List Char)
  | [] => none
  | '"' :: rest => some ([], rest)
  | '\\' :: 'u' :: a :: b :: c :: d :: rest =>
    match unicode a b c d, parseString rest with
    | some char, some (text, rest) => some (char :: text, rest)
    | _, _ => none
  | '\\' :: mark :: rest =>
    match unescape mark, parseString rest with
    | some char, some (text, rest) => some (char :: text, rest)
    | _, _ => none
  | char :: rest =>
    if char.toNat < 32 ∨ char = '\\' then none
    else
      match parseString rest with
      | some (text, rest) => some (char :: text, rest)
      | none => none

mutual

/-- The value a text begins with, and what follows it. The fuel bounds how deep and how long it is. -/
def parseValue : ℕ → List Char → Option (Value × List Char)
  | 0, _ => none
  | fuel + 1, text =>
    match text with
    | '"' :: rest =>
      match parseString rest with
      | some (text, rest) => some (.str text, rest)
      | none => none
    | '[' :: rest =>
      match skipSpace rest with
      | ']' :: rest => some (.arr [], rest)
      | rest =>
        match parseItems fuel rest with
        | some (items, rest) => some (.arr items, rest)
        | none => none
    | '{' :: rest =>
      match skipSpace rest with
      | '}' :: rest => some (.obj [], rest)
      | rest =>
        match parseFields fuel rest with
        | some (fields, rest) => some (.obj (Dict.update [] fields), rest)
        | none => none
    | text =>
      if isWord (text.takeWhile isBare) then some (.word (text.takeWhile isBare), text.dropWhile isBare)
      else none

/-- The items up to the closing bracket. -/
def parseItems : ℕ → List Char → Option (List Value × List Char)
  | 0, _ => none
  | fuel + 1, text =>
    match parseValue fuel text with
    | none => none
    | some (item, rest) =>
      match skipSpace rest with
      | ']' :: rest => some ([item], rest)
      | ',' :: rest =>
        match parseItems fuel (skipSpace rest) with
        | some (items, rest) => some (item :: items, rest)
        | none => none
      | _ => none

/-- The fields up to the closing brace. -/
def parseFields : ℕ → List Char → Option (List (List Char × Value) × List Char)
  | 0, _ => none
  | fuel + 1, text =>
    match parseField fuel text with
    | none => none
    | some (field, rest) =>
      match skipSpace rest with
      | '}' :: rest => some ([field], rest)
      | ',' :: rest =>
        match parseFields fuel (skipSpace rest) with
        | some (fields, rest) => some (field :: fields, rest)
        | none => none
      | _ => none

/-- A key, a colon and a value. -/
def parseField : ℕ → List Char → Option ((List Char × Value) × List Char)
  | 0, _ => none
  | fuel + 1, text =>
    match text with
    | '"' :: rest =>
      match parseString rest with
      | none => none
      | some (key, rest) =>
        match skipSpace rest with
        | ':' :: rest =>
          match parseValue fuel (skipSpace rest) with
          | some (value, rest) => some ((key, value), rest)
          | none => none
        | _ => none
    | _ => none

end

/-- The value of a whole text. -/
def loads (text : List Char) : Option Value :=
  match parseValue (text.length + 1) (skipSpace text) with
  | some (value, rest) => if skipSpace rest = [] then some value else none
  | none => none


/-! ## Well-formed values -/

mutual

/-- Words are words, and the keys of every object ascend. -/
def wellFormed : Value → Bool
  | .word text => isWord text
  | .str _ => true
  | .arr items => wellFormedItems items
  | .obj fields => wellFormedFields fields && decide ((fields.map Prod.fst).Pairwise (· < ·))
termination_by structural value => value

def wellFormedItems : List Value → Bool
  | [] => true
  | item :: rest => wellFormed item && wellFormedItems rest
termination_by structural items => items

def wellFormedFields : List (List Char × Value) → Bool
  | [] => true
  | field :: rest => wellFormedField field && wellFormedFields rest
termination_by structural fields => fields

def wellFormedField : List Char × Value → Bool
  | (_, value) => wellFormed value
termination_by structural field => field

end

mutual

/-- Words are words, and no object has a key twice. -/
def isValue : Value → Bool
  | .word text => isWord text
  | .str _ => true
  | .arr items => isValues items
  | .obj fields => isFields fields && decide (fields.map Prod.fst).Nodup
termination_by structural value => value

def isValues : List Value → Bool
  | [] => true
  | item :: rest => isValue item && isValues rest
termination_by structural items => items

def isFields : List (List Char × Value) → Bool
  | [] => true
  | field :: rest => isField field && isFields rest
termination_by structural fields => fields

def isField : List Char × Value → Bool
  | (_, value) => isValue value
termination_by structural field => field

end

theorem nodup_keys (fields : List (List Char × Value))
    (h : (fields.map Prod.fst).Pairwise (· < ·)) : (([] ++ fields).map Prod.fst).Nodup :=
  h.imp (fun {first second} (hlt : first < second) (heq : first = second) =>
    lt_irrefl second (heq ▸ hlt))

mutual

theorem isValue_of_wellFormed : ∀ value : Value, wellFormed value = true → isValue value = true
  | .word text, h => by
      rw [wellFormed] at h
      rw [isValue]
      exact h
  | .str text, _ => by
      rw [isValue]
  | .arr items, h => by
      rw [wellFormed] at h
      rw [isValue]
      exact isValues_of_wellFormed items h
  | .obj fields, h => by
      rw [wellFormed, Bool.and_eq_true] at h
      rw [isValue, Bool.and_eq_true]
      exact ⟨isFields_of_wellFormed fields h.1, decide_eq_true (nodup_keys fields (of_decide_eq_true h.2))⟩

theorem isValues_of_wellFormed : ∀ items : List Value, wellFormedItems items = true → isValues items = true
  | [], _ => by
      rw [isValues]
  | item :: rest, h => by
      rw [wellFormedItems, Bool.and_eq_true] at h
      rw [isValues, isValue_of_wellFormed item h.1, isValues_of_wellFormed rest h.2, Bool.and_self]

theorem isFields_of_wellFormed : ∀ fields : List (List Char × Value), wellFormedFields fields = true →
    isFields fields = true
  | [], _ => by
      rw [isFields]
  | field :: rest, h => by
      rw [wellFormedFields, Bool.and_eq_true] at h
      rw [isFields, isField_of_wellFormed field h.1, isFields_of_wellFormed rest h.2, Bool.and_self]

theorem isField_of_wellFormed : ∀ field : List Char × Value, wellFormedField field = true →
    isField field = true
  | (key, value), h => by
      rw [wellFormedField] at h
      rw [isField]
      exact isValue_of_wellFormed value h

end

theorem toDigits_head (number : ℕ) (h : 0 < number) :
    ∃ digit rest, Nat.toDigits 10 number = digit :: rest ∧ digit ≠ '0' := by
  induction number using Nat.strongRecOn with
  | _ number ih =>
      rw [Nat.toDigits_eq_if (by decide)]
      by_cases hlt : number < 10
      · rw [if_pos hlt]
        have hdigit : ∀ digit < 10, 0 < digit → digit.digitChar ≠ '0' := by decide
        exact ⟨number.digitChar, [], rfl, hdigit number hlt h⟩
      · rw [if_neg hlt]
        obtain ⟨digit, rest, hdigits, hne⟩ := ih (number / 10) (by omega) (by omega)
        rw [hdigits]
        exact ⟨digit, _, rfl, hne⟩

theorem isWord_toDigits (number : ℕ) : isWord (Nat.toDigits 10 number) = true := by
  have hdigit : ∀ digit ∈ Nat.toDigits 10 number, digit.isDigit = true :=
    fun digit hmem => Nat.isDigit_of_mem_toDigits (by decide) (by decide) hmem
  unfold isWord
  rw [Bool.and_eq_true, List.all_eq_true, Bool.or_eq_true]
  refine ⟨fun digit hmem => ?_, Or.inr ?_⟩
  · unfold isBare Char.isAlphanum
    rw [hdigit digit hmem]
    simp
  · rcases Nat.eq_zero_or_pos number with rfl | hpos
    · decide
    · obtain ⟨digit, rest, htext, hne⟩ := toDigits_head number hpos
      rw [htext] at hdigit ⊢
      have hfirst := hdigit digit List.mem_cons_self
      have hminus : digit ≠ '-' := by
        rintro rfl
        exact absurd hfirst (by decide)
      have hrest : rest.dropWhile Char.isDigit = [] :=
        List.dropWhile_eq_nil_iff.mpr (fun other hother => hdigit other (List.mem_cons_of_mem _ hother))
      unfold isNumber
      simp only
      split
      · next heq =>
          split at heq
          · next hhead => exact absurd (List.cons.inj hhead).1 hminus
          · exact absurd (List.cons.inj heq).1 hne
      · next hzero heq =>
          split at heq
          · next hhead => exact absurd (List.cons.inj hhead).1 hminus
          · obtain ⟨rfl, rfl⟩ := List.cons.inj heq
            rw [hfirst, hrest]
            rfl
      · next heq =>
          split at heq
          · next hhead => exact absurd (List.cons.inj hhead).1 hminus
          · exact absurd heq (List.cons_ne_nil _ _)

/-! ## Strings are read back -/

theorem parseString_plain (char : Char) (rest : List Char) (hquote : char ≠ '"') (hslash : char ≠ '\\')
    (hcontrol : ¬ char.toNat < 32) :
    parseString (char :: rest) = (parseString rest).map (fun read => (char :: read.1, read.2)) := by
  rw [parseString.eq_def]
  split
  · next h => exact absurd h (by simp)
  · next h => exact absurd (List.cons.inj h).1 hquote
  · next h => exact absurd (List.cons.inj h).1 hslash
  · next h => exact absurd (List.cons.inj h).1 hslash
  · next h =>
      obtain ⟨rfl, rfl⟩ := List.cons.inj h
      rw [if_neg (not_or.mpr ⟨hcontrol, hslash⟩)]
      rcases parseString rest with _ | read
      · rfl
      · rfl

theorem parseString_short (mark char : Char) (rest : List Char) (h : unescape mark = some char) :
    parseString ('\\' :: mark :: rest)
      = (parseString rest).map (fun read => (char :: read.1, read.2)) := by
  have hmark : mark ≠ 'u' := by
    rintro rfl
    exact absurd (h.symm.trans (rfl : unescape 'u' = none)) (Option.some_ne_none char)
  rw [parseString.eq_def]
  split
  · next heq => exact absurd heq (by simp)
  · next heq => exact absurd (List.cons.inj heq).1 (by decide)
  · next heq => exact absurd (List.cons.inj (List.cons.inj heq).2).1 hmark
  · next heq =>
      obtain ⟨rfl, rfl⟩ := List.cons.inj (List.cons.inj heq).2
      rw [h]
      rcases parseString rest with _ | read
      · rfl
      · rfl
  · next hother heq =>
      obtain ⟨rfl, rfl⟩ := List.cons.inj heq
      exact absurd rfl (hother mark rest rfl)

theorem parseString_unicode (a b c d char : Char) (rest : List Char) (h : unicode a b c d = some char) :
    parseString ('\\' :: 'u' :: a :: b :: c :: d :: rest)
      = (parseString rest).map (fun read => (char :: read.1, read.2)) := by
  rw [parseString.eq_def]
  simp only [h]
  rcases parseString rest with _ | read
  · rfl
  · rfl

theorem unicode_control : ∀ number < 32,
    unicode '0' '0' (hexDigit (number / 16)) (hexDigit (number % 16)) = some (Char.ofNat number) := by
  decide

theorem parseString_escape (char : Char) (rest : List Char) :
    parseString (escape char ++ rest) = (parseString rest).map (fun read => (char :: read.1, read.2)) := by
  have hchar : ∀ number, char.toNat = number → Char.ofNat number = char := by
    rintro number rfl
    exact Char.ofNat_toNat char
  unfold escape
  split_ifs with hquote hslash hn hr ht hb hf hcontrol
  · exact parseString_short '"' char rest (by rw [hquote]; rfl)
  · exact parseString_short '\\' char rest (by rw [hslash]; rfl)
  · exact parseString_short 'n' char rest (hn ▸ rfl)
  · exact parseString_short 'r' char rest (hr ▸ rfl)
  · exact parseString_short 't' char rest (ht ▸ rfl)
  · exact parseString_short 'b' char rest (congrArg some (hchar 8 hb))
  · exact parseString_short 'f' char rest (congrArg some (hchar 12 hf))
  · refine parseString_unicode '0' '0' _ _ char rest ?_
    rw [unicode_control char.toNat hcontrol, Char.ofNat_toNat]
  · exact parseString_plain char rest hquote hslash hcontrol

theorem parseString_dumps (text rest : List Char) :
    parseString (text.flatMap escape ++ '"' :: rest) = some (text, rest) := by
  induction text with
  | nil => rfl
  | cons char text ih =>
      rw [List.flatMap_cons, List.append_assoc, parseString_escape, ih]
      rfl

theorem parseString_append (text content rest more : List Char)
    (h : parseString text = some (content, rest)) :
    parseString (text ++ more) = some (content, rest ++ more) := by
  fun_induction parseString text generalizing content rest with
  | case2 after =>
      obtain ⟨rfl, rfl⟩ := Prod.mk.inj (Option.some.inj h)
      rfl
  | case3 a b c d after char text' rest' hread hchar ih =>
      obtain ⟨rfl, rfl⟩ := Prod.mk.inj (Option.some.inj h)
      simp only [List.cons_append]
      rw [parseString_unicode a b c d char _ hchar, ih _ _ hread]
      rfl
  | case5 mark after hmark char text' rest' hread hchar ih =>
      obtain ⟨rfl, rfl⟩ := Prod.mk.inj (Option.some.inj h)
      simp only [List.cons_append]
      rw [parseString_short mark char _ hchar, ih _ _ hread]
      rfl
  | case8 char after hquote hunicode hshort hplain text' rest' hread ih =>
      obtain ⟨rfl, rfl⟩ := Prod.mk.inj (Option.some.inj h)
      have hboth := not_or.mp hplain
      rw [List.cons_append, parseString_plain char _ hquote hboth.2 hboth.1, ih _ _ hread]
      rfl
  | case1 => exact absurd h (by simp)
  | case4 => exact absurd h (by simp)
  | case6 => exact absurd h (by simp)
  | case7 => exact absurd h (by simp)
  | case9 => exact absurd h (by simp)

/-! ## Where a value ends -/

/-- The text cannot go on with a word. -/
def Stops (text : List Char) : Prop := ∀ char ∈ text.head?, isBare char = false

theorem stops_cons (char : Char) (text : List Char) (h : isBare char = false) : Stops (char :: text) := by
  intro other hother
  obtain rfl := Option.some.inj hother
  exact h

theorem takeWhile_word (text rest : List Char) (hword : text.all isBare = true) (hstops : Stops rest) :
    (text ++ rest).takeWhile isBare = text ∧ (text ++ rest).dropWhile isBare = rest := by
  have hall : ∀ char ∈ text, isBare char = true := List.all_eq_true.mp hword
  have hrest : rest.takeWhile isBare = [] ∧ rest.dropWhile isBare = rest := by
    cases rest with
    | nil => exact ⟨rfl, rfl⟩
    | cons char rest =>
        have hchar := hstops char rfl
        rw [List.takeWhile_cons, List.dropWhile_cons, hchar]
        exact ⟨rfl, rfl⟩
  constructor
  · rw [List.takeWhile_append_of_pos hall, hrest.1, List.append_nil]
  · rw [List.dropWhile_append_of_pos hall, hrest.2]

theorem parseValue_bare (fuel : ℕ) (text : List Char)
    (h : ∀ char ∈ text.head?, char ≠ '"' ∧ char ≠ '[' ∧ char ≠ '{') :
    parseValue (fuel + 1) text
      = if isWord (text.takeWhile isBare) then
          some (.word (text.takeWhile isBare), text.dropWhile isBare) else none := by
  rw [parseValue.eq_def]
  simp only
  split
  · exact absurd rfl (h _ rfl).1
  · exact absurd rfl (h _ rfl).2.1
  · exact absurd rfl (h _ rfl).2.2
  · rfl

theorem skipSpace_cons (char : Char) (text : List Char) (h : isSpace char = false) :
    skipSpace (char :: text) = char :: text := by
  unfold skipSpace
  rw [List.dropWhile_cons, h]
  rfl

theorem skipSpace_append (text more : List Char) (h : skipSpace text ≠ []) :
    skipSpace (text ++ more) = skipSpace text ++ more := by
  unfold skipSpace at h ⊢
  rw [List.dropWhile_append, if_neg]
  rw [List.isEmpty_iff]
  exact h

/-! ## One step of reading -/

section Steps

variable (fuel : ℕ) (text after more rest : List Char)

theorem parseValue_str (content : List Char) (h : parseString text = some (content, rest)) :
    parseValue (fuel + 1) ('"' :: text) = some (.str content, rest) := by
  rw [parseValue.eq_def]
  simp only [h]

theorem parseValue_arr_nil (h : skipSpace text = ']' :: rest) :
    parseValue (fuel + 1) ('[' :: text) = some (.arr [], rest) := by
  rw [parseValue.eq_def]
  simp only [h]

theorem parseValue_arr (items : List Value) (hopen : ∀ rest, skipSpace text ≠ ']' :: rest)
    (h : parseItems fuel (skipSpace text) = some (items, rest)) :
    parseValue (fuel + 1) ('[' :: text) = some (.arr items, rest) := by
  rw [parseValue.eq_def]
  simp only
  split
  · next heq =>
      obtain ⟨rfl, rfl⟩ := Prod.mk.inj (Option.some.inj (h.symm.trans heq))
      rfl
  · next heq => exact absurd (h.symm.trans heq) (by simp)

theorem parseValue_obj_nil (h : skipSpace text = '}' :: rest) :
    parseValue (fuel + 1) ('{' :: text) = some (.obj [], rest) := by
  rw [parseValue.eq_def]
  simp only [h]

theorem parseValue_obj (fields : List (List Char × Value)) (hopen : ∀ rest, skipSpace text ≠ '}' :: rest)
    (h : parseFields fuel (skipSpace text) = some (fields, rest)) :
    parseValue (fuel + 1) ('{' :: text) = some (.obj (Dict.update [] fields), rest) := by
  rw [parseValue.eq_def]
  simp only
  split
  · next heq =>
      obtain ⟨rfl, rfl⟩ := Prod.mk.inj (Option.some.inj (h.symm.trans heq))
      rfl
  · next heq => exact absurd (h.symm.trans heq) (by simp)

theorem parseItems_last (item : Value) (h : parseValue fuel text = some (item, after))
    (hnext : skipSpace after = ']' :: rest) : parseItems (fuel + 1) text = some ([item], rest) := by
  rw [parseItems.eq_def]
  simp only [h, hnext]

theorem parseItems_more (item : Value) (items : List Value) (h : parseValue fuel text = some (item, after))
    (hnext : skipSpace after = ',' :: more) (hitems : parseItems fuel (skipSpace more) = some (items, rest)) :
    parseItems (fuel + 1) text = some (item :: items, rest) := by
  rw [parseItems.eq_def]
  simp only [h, hnext, hitems]

theorem parseFields_last (field : List Char × Value) (h : parseField fuel text = some (field, after))
    (hnext : skipSpace after = '}' :: rest) : parseFields (fuel + 1) text = some ([field], rest) := by
  rw [parseFields.eq_def]
  simp only [h, hnext]

theorem parseFields_more (field : List Char × Value) (fields : List (List Char × Value))
    (h : parseField fuel text = some (field, after)) (hnext : skipSpace after = ',' :: more)
    (hfields : parseFields fuel (skipSpace more) = some (fields, rest)) :
    parseFields (fuel + 1) text = some (field :: fields, rest) := by
  rw [parseFields.eq_def]
  simp only [h, hnext, hfields]

theorem parseField_step (key : List Char) (value : Value) (h : parseString text = some (key, after))
    (hnext : skipSpace after = ':' :: more) (hvalue : parseValue fuel (skipSpace more) = some (value, rest)) :
    parseField (fuel + 1) ('"' :: text) = some ((key, value), rest) := by
  rw [parseField.eq_def]
  simp only [h, hnext, hvalue]

end Steps

/-! ## What is written is read back -/

theorem isSpace_of_isBare (char : Char) (h : isBare char = true) :
    isSpace char = false ∧ char ≠ '"' ∧ char ≠ '[' ∧ char ≠ '{' ∧ char ≠ ']' := by
  refine ⟨?_, ?_, ?_, ?_, ?_⟩
  · unfold isSpace
    rw [decide_eq_false_iff_not]
    intro hmem
    simp only [List.mem_cons, List.not_mem_nil, or_false] at hmem
    rcases hmem with rfl | rfl | rfl | rfl <;> exact absurd h (by decide)
  all_goals
    rintro rfl
    exact absurd h (by decide)

theorem word_cons (text : List Char) (h : isWord text = true) :
    ∃ char rest, text = char :: rest ∧ isBare char = true := by
  cases text with
  | nil => exact absurd h (by decide)
  | cons char rest =>
      unfold isWord at h
      rw [Bool.and_eq_true, List.all_cons, Bool.and_eq_true] at h
      exact ⟨char, rest, rfl, h.1.1⟩

theorem dumps_cons (value : Value) (h : isValue value = true) :
    ∃ char rest, dumps value = char :: rest ∧ isSpace char = false ∧ char ≠ ']' := by
  cases value with
  | word text =>
      rw [isValue] at h
      obtain ⟨char, rest, htext, hbare⟩ := word_cons text h
      rw [dumps]
      have hchar := isSpace_of_isBare char hbare
      exact ⟨char, rest, htext, hchar.1, hchar.2.2.2.2⟩
  | str text =>
      rw [dumps]
      exact ⟨'"', _, rfl, by decide, by decide⟩
  | arr items =>
      rw [dumps]
      exact ⟨'[', _, rfl, by decide, by decide⟩
  | obj fields =>
      rw [dumps]
      exact ⟨'{', _, rfl, by decide, by decide⟩

theorem dumpsField_cons (field : List Char × Value) : ∃ rest, dumpsField field = '"' :: rest := by
  obtain ⟨key, value⟩ := field
  rw [dumpsField]
  exact ⟨_, rfl⟩

mutual

theorem parseValue_dumps : ∀ (value : Value) (fuel : ℕ) (rest : List Char), isValue value = true →
    (dumps value).length ≤ fuel → Stops rest → parseValue fuel (dumps value ++ rest) = some (value, rest)
  | .word text, fuel, rest, h, hfuel, hstops => by
      rw [isValue] at h
      rw [dumps] at hfuel ⊢
      obtain ⟨char, tail, htext, hbare⟩ := word_cons text h
      obtain ⟨fuel, rfl⟩ : ∃ fuel', fuel = fuel' + 1 := ⟨fuel - 1, by
        rw [htext, List.length_cons] at hfuel
        omega⟩
      have hall : text.all isBare = true := by
        unfold isWord at h
        rw [Bool.and_eq_true] at h
        exact h.1
      obtain ⟨htake, hdrop⟩ := takeWhile_word text rest hall hstops
      rw [parseValue_bare, htake, hdrop, if_pos h]
      intro first hfirst
      rw [htext] at hfirst
      obtain rfl := Option.some.inj hfirst
      have hchar := isSpace_of_isBare _ hbare
      exact ⟨hchar.2.1, hchar.2.2.1, hchar.2.2.2.1⟩
  | .str text, fuel, rest, _, hfuel, _ => by
      rw [dumps] at hfuel ⊢
      unfold dumpsString at hfuel ⊢
      obtain ⟨fuel, rfl⟩ : ∃ fuel', fuel = fuel' + 1 := ⟨fuel - 1, by
        rw [List.length_cons] at hfuel
        omega⟩
      refine parseValue_str fuel _ rest text ?_
      show parseString (text.flatMap escape ++ ['"'] ++ rest) = _
      rw [List.append_assoc]
      exact parseString_dumps text rest
  | .arr [], fuel, rest, _, hfuel, _ => by
      rw [dumps, dumpsItems] at hfuel ⊢
      obtain ⟨fuel, rfl⟩ : ∃ fuel', fuel = fuel' + 1 := ⟨fuel - 1, by
        rw [List.length_cons] at hfuel
        omega⟩
      exact parseValue_arr_nil fuel _ rest (skipSpace_cons ']' rest (by decide))
  | .arr (item :: items), fuel, rest, h, hfuel, _ => by
      rw [isValue] at h
      have hitem : isValue item = true := by
        rw [isValues, Bool.and_eq_true] at h
        exact h.1
      obtain ⟨char, tail, hchar, hspace, hclose⟩ := dumps_cons item hitem
      rw [dumps, List.length_cons, List.length_append, List.length_drop] at hfuel
      obtain ⟨fuel, rfl⟩ : ∃ fuel', fuel = fuel' + 1 := ⟨fuel - 1, by omega⟩
      have hlength : (dumpsItems (item :: items)).length ≤ fuel := by
        have hpos : 0 < (dumpsItems (item :: items)).length := by
          rw [dumpsItems]
          exact Nat.succ_pos _
        rw [List.length_singleton] at hfuel
        omega
      have hread := parseItems_dumps (item :: items) fuel rest h hlength (List.cons_ne_nil _ _)
      rw [dumpsItems, List.drop_succ_cons, List.drop_zero, List.append_assoc] at hread
      have htext : dumps (.arr (item :: items)) ++ rest
          = '[' :: (dumps item ++ (dumpsItems items ++ ']' :: rest)) := by
        rw [dumps, dumpsItems]
        simp only [List.drop_succ_cons, List.drop_zero, List.cons_append, List.append_assoc,
          List.nil_append]
      have hskip : skipSpace (dumps item ++ (dumpsItems items ++ ']' :: rest))
          = dumps item ++ (dumpsItems items ++ ']' :: rest) := by
        rw [hchar]
        exact skipSpace_cons char _ hspace
      rw [htext]
      refine parseValue_arr fuel _ rest (item :: items) ?_ (by rw [hskip]; exact hread)
      intro other heq
      rw [hskip, hchar] at heq
      exact hclose (List.cons.inj heq).1
  | .obj [], fuel, rest, _, hfuel, _ => by
      rw [dumps, dumpsFields] at hfuel ⊢
      obtain ⟨fuel, rfl⟩ : ∃ fuel', fuel = fuel' + 1 := ⟨fuel - 1, by
        rw [List.length_cons] at hfuel
        omega⟩
      exact parseValue_obj_nil fuel _ rest (skipSpace_cons '}' rest (by decide))
  | .obj (field :: fields), fuel, rest, h, hfuel, _ => by
      rw [isValue, Bool.and_eq_true] at h
      rw [dumps, List.length_cons, List.length_append, List.length_drop] at hfuel
      obtain ⟨fuel, rfl⟩ : ∃ fuel', fuel = fuel' + 1 := ⟨fuel - 1, by omega⟩
      have hlength : (dumpsFields (field :: fields)).length ≤ fuel := by
        have hpos : 0 < (dumpsFields (field :: fields)).length := by
          rw [dumpsFields]
          exact Nat.succ_pos _
        rw [List.length_singleton] at hfuel
        omega
      have hread := parseFields_dumps (field :: fields) fuel rest h.1 hlength (List.cons_ne_nil _ _)
      rw [dumpsFields, List.drop_succ_cons, List.drop_zero, List.append_assoc] at hread
      have htext : dumps (.obj (field :: fields)) ++ rest
          = '{' :: (dumpsField field ++ (dumpsFields fields ++ '}' :: rest)) := by
        rw [dumps, dumpsFields]
        simp only [List.drop_succ_cons, List.drop_zero, List.cons_append, List.append_assoc,
          List.nil_append]
      obtain ⟨tail, hquote⟩ := dumpsField_cons field
      have hskip : skipSpace (dumpsField field ++ (dumpsFields fields ++ '}' :: rest))
          = dumpsField field ++ (dumpsFields fields ++ '}' :: rest) := by
        rw [hquote]
        exact skipSpace_cons '"' _ (by decide)
      have hdict : Dict.update [] (field :: fields) = field :: fields :=
        Dict.update_fresh [] (field :: fields) (of_decide_eq_true h.2)
      rw [htext]
      refine (parseValue_obj fuel _ rest (field :: fields) ?_ (by rw [hskip]; exact hread)).trans ?_
      · intro other heq
        rw [hskip, hquote] at heq
        exact absurd (List.cons.inj heq).1 (by decide)
      · rw [hdict]

theorem parseItems_dumps : ∀ (items : List Value) (fuel : ℕ) (rest : List Char),
    isValues items = true → (dumpsItems items).length ≤ fuel → items ≠ [] →
    parseItems fuel ((dumpsItems items).drop 1 ++ ']' :: rest) = some (items, rest)
  | [], _, _, _, _, hne => absurd rfl hne
  | [item], fuel, rest, h, hfuel, _ => by
      rw [isValues, Bool.and_eq_true] at h
      rw [dumpsItems, List.length_cons, List.length_append] at hfuel
      obtain ⟨fuel, rfl⟩ : ∃ fuel', fuel = fuel' + 1 := ⟨fuel - 1, by omega⟩
      have hitem := parseValue_dumps item fuel (']' :: rest) h.1 (by omega)
        (stops_cons ']' rest (by decide))
      rw [dumpsItems, dumpsItems, List.drop_succ_cons, List.drop_zero, List.append_nil]
      exact parseItems_last fuel _ (']' :: rest) rest item hitem (skipSpace_cons ']' rest (by decide))
  | item :: next :: others, fuel, rest, h, hfuel, _ => by
      rw [isValues, Bool.and_eq_true] at h
      rw [dumpsItems, List.length_cons, List.length_append] at hfuel
      obtain ⟨fuel, rfl⟩ : ∃ fuel', fuel = fuel' + 1 := ⟨fuel - 1, by omega⟩
      obtain ⟨char, tail, hchar, hspace, -⟩ := dumps_cons next (by
        have hrest := h.2
        rw [isValues, Bool.and_eq_true] at hrest
        exact hrest.1)
      have hitems := parseItems_dumps (next :: others) fuel rest h.2 (by omega) (List.cons_ne_nil _ _)
      have hmore : dumpsItems (next :: others) ++ ']' :: rest
          = ',' :: ((dumpsItems (next :: others)).drop 1 ++ ']' :: rest) := by
        rw [dumpsItems]
        rfl
      have hitem := parseValue_dumps item fuel (dumpsItems (next :: others) ++ ']' :: rest) h.1 (by omega)
        (by rw [hmore]; exact stops_cons ',' _ (by decide))
      rw [dumpsItems, List.drop_succ_cons, List.drop_zero, List.append_assoc]
      refine parseItems_more fuel _ _ ((dumpsItems (next :: others)).drop 1 ++ ']' :: rest) rest item _
        hitem ?_ ?_
      · rw [hmore]
        exact skipSpace_cons ',' _ (by decide)
      · rw [dumpsItems, List.drop_succ_cons, List.drop_zero, hchar] at hitems ⊢
        simp only [List.cons_append] at hitems ⊢
        rw [skipSpace_cons char _ hspace]
        exact hitems

theorem parseFields_dumps : ∀ (fields : List (List Char × Value)) (fuel : ℕ) (rest : List Char),
    isFields fields = true → (dumpsFields fields).length ≤ fuel → fields ≠ [] →
    parseFields fuel ((dumpsFields fields).drop 1 ++ '}' :: rest) = some (fields, rest)
  | [], _, _, _, _, hne => absurd rfl hne
  | [field], fuel, rest, h, hfuel, _ => by
      rw [isFields, Bool.and_eq_true] at h
      rw [dumpsFields, List.length_cons, List.length_append] at hfuel
      obtain ⟨fuel, rfl⟩ : ∃ fuel', fuel = fuel' + 1 := ⟨fuel - 1, by omega⟩
      have hfield := parseField_dumps field fuel ('}' :: rest) h.1 (by omega)
        (stops_cons '}' rest (by decide))
      rw [dumpsFields, dumpsFields, List.drop_succ_cons, List.drop_zero, List.append_nil]
      exact parseFields_last fuel _ ('}' :: rest) rest field hfield (skipSpace_cons '}' rest (by decide))
  | field :: next :: others, fuel, rest, h, hfuel, _ => by
      rw [isFields, Bool.and_eq_true] at h
      rw [dumpsFields, List.length_cons, List.length_append] at hfuel
      obtain ⟨fuel, rfl⟩ : ∃ fuel', fuel = fuel' + 1 := ⟨fuel - 1, by omega⟩
      obtain ⟨tail, hquote⟩ := dumpsField_cons next
      have hfields := parseFields_dumps (next :: others) fuel rest h.2 (by omega) (List.cons_ne_nil _ _)
      have hmore : dumpsFields (next :: others) ++ '}' :: rest
          = ',' :: ((dumpsFields (next :: others)).drop 1 ++ '}' :: rest) := by
        rw [dumpsFields]
        rfl
      have hfield := parseField_dumps field fuel (dumpsFields (next :: others) ++ '}' :: rest) h.1 (by omega)
        (by rw [hmore]; exact stops_cons ',' _ (by decide))
      rw [dumpsFields, List.drop_succ_cons, List.drop_zero, List.append_assoc]
      refine parseFields_more fuel _ _ ((dumpsFields (next :: others)).drop 1 ++ '}' :: rest) rest field _
        hfield ?_ ?_
      · rw [hmore]
        exact skipSpace_cons ',' _ (by decide)
      · rw [dumpsFields, List.drop_succ_cons, List.drop_zero, hquote] at hfields ⊢
        simp only [List.cons_append] at hfields ⊢
        rw [skipSpace_cons '"' _ (by decide)]
        exact hfields

theorem parseField_dumps : ∀ (field : List Char × Value) (fuel : ℕ) (rest : List Char),
    isField field = true → (dumpsField field).length ≤ fuel → Stops rest →
    parseField fuel (dumpsField field ++ rest) = some (field, rest)
  | (key, value), fuel, rest, h, hfuel, hstops => by
      rw [isField] at h
      rw [dumpsField, List.length_append, List.length_cons] at hfuel
      obtain ⟨fuel, rfl⟩ : ∃ fuel', fuel = fuel' + 1 := ⟨fuel - 1, by omega⟩
      obtain ⟨char, tail, hchar, hspace, -⟩ := dumps_cons value h
      have hlength : (dumps value).length ≤ fuel := by omega
      have hvalue := parseValue_dumps value fuel rest h hlength hstops
      have htext : dumpsField (key, value) ++ rest
          = '"' :: (key.flatMap escape ++ '"' :: ':' :: (dumps value ++ rest)) := by
        rw [dumpsField]
        unfold dumpsString
        simp only [List.cons_append, List.append_assoc, List.nil_append]
      rw [htext]
      refine parseField_step fuel _ (':' :: (dumps value ++ rest)) (dumps value ++ rest) rest key value
        (parseString_dumps key _) (skipSpace_cons ':' _ (by decide)) ?_
      rw [hchar, List.cons_append, skipSpace_cons char _ hspace, ← List.cons_append, ← hchar]
      exact hvalue

end

/-- **What is written is read back.** -/
theorem loads_dumps (value : Value) (h : isValue value = true) : loads (dumps value) = some value := by
  obtain ⟨char, tail, hchar, hspace, -⟩ := dumps_cons value h
  have hskip : skipSpace (dumps value) = dumps value := by
    rw [hchar]
    exact skipSpace_cons char tail hspace
  have hread := parseValue_dumps value ((dumps value).length + 1) [] h (Nat.le_succ _)
    (fun other hother => absurd hother (by simp))
  rw [List.append_nil] at hread
  unfold loads
  rw [hskip, hread]
  rfl

theorem loads_followed (value : Value) (char : Char) (rest : List Char) (h : isValue value = true)
    (hspace : isSpace char = false) (hbare : isBare char = false) : loads (dumps value ++ char :: rest) = none := by
  obtain ⟨first, tail, hfirst, hplain, -⟩ := dumps_cons value h
  have hskip : skipSpace (dumps value ++ char :: rest) = dumps value ++ char :: rest := by
    rw [hfirst, List.cons_append]
    exact skipSpace_cons first _ hplain
  have hread := parseValue_dumps value ((dumps value ++ char :: rest).length + 1) (char :: rest) h
    (by rw [List.length_append]; omega) (stops_cons char rest hbare)
  unfold loads
  rw [hskip, hread]
  simp only
  rw [skipSpace_cons char rest hspace, if_neg (List.cons_ne_nil char rest)]

/-! ## Reading what goes on -/

section

variable (fuel : ℕ)

theorem parseValue_nil : parseValue fuel [] = none := by
  cases fuel with
  | zero => rfl
  | succ fuel =>
      rw [parseValue_bare fuel [] (fun char hchar => absurd hchar (by simp))]
      rfl

theorem parseItems_cases (text rest : List Char) (items : List Value)
    (h : parseItems (fuel + 1) text = some (items, rest)) :
    ∃ item after, parseValue fuel text = some (item, after) ∧
      ((skipSpace after = ']' :: rest ∧ items = [item]) ∨
        ∃ more others, skipSpace after = ',' :: more ∧
          parseItems fuel (skipSpace more) = some (others, rest) ∧ items = item :: others) := by
  rw [parseItems.eq_def] at h
  simp only at h
  split at h
  · exact absurd h (by simp)
  · next item after hitem =>
      refine ⟨item, after, hitem, ?_⟩
      split at h
      · next hnext =>
          obtain ⟨rfl, rfl⟩ := Prod.mk.inj (Option.some.inj h)
          exact Or.inl ⟨hnext, rfl⟩
      · next more hnext =>
          split at h
          · next others rest' hothers =>
              obtain ⟨rfl, rfl⟩ := Prod.mk.inj (Option.some.inj h)
              exact Or.inr ⟨more, others, hnext, hothers, rfl⟩
          · exact absurd h (by simp)
      · exact absurd h (by simp)

theorem parseFields_cases (text rest : List Char) (fields : List (List Char × Value))
    (h : parseFields (fuel + 1) text = some (fields, rest)) :
    ∃ field after, parseField fuel text = some (field, after) ∧
      ((skipSpace after = '}' :: rest ∧ fields = [field]) ∨
        ∃ more others, skipSpace after = ',' :: more ∧
          parseFields fuel (skipSpace more) = some (others, rest) ∧ fields = field :: others) := by
  rw [parseFields.eq_def] at h
  simp only at h
  split at h
  · exact absurd h (by simp)
  · next field after hfield =>
      refine ⟨field, after, hfield, ?_⟩
      split at h
      · next hnext =>
          obtain ⟨rfl, rfl⟩ := Prod.mk.inj (Option.some.inj h)
          exact Or.inl ⟨hnext, rfl⟩
      · next more hnext =>
          split at h
          · next others rest' hothers =>
              obtain ⟨rfl, rfl⟩ := Prod.mk.inj (Option.some.inj h)
              exact Or.inr ⟨more, others, hnext, hothers, rfl⟩
          · exact absurd h (by simp)
      · exact absurd h (by simp)

theorem parseField_cases (text rest : List Char) (field : List Char × Value)
    (h : parseField (fuel + 1) text = some (field, rest)) :
    ∃ tail after more, text = '"' :: tail ∧ parseString tail = some (field.1, after) ∧
      skipSpace after = ':' :: more ∧ parseValue fuel (skipSpace more) = some (field.2, rest) := by
  rw [parseField.eq_def] at h
  simp only at h
  split at h
  · next tail =>
      split at h
      · exact absurd h (by simp)
      · next key after hkey =>
          split at h
          · next more hnext =>
              split at h
              · next value rest' hvalue =>
                  obtain ⟨rfl, rfl⟩ := Prod.mk.inj (Option.some.inj h)
                  exact ⟨tail, after, more, rfl, hkey, hnext, hvalue⟩
              · exact absurd h (by simp)
          · exact absurd h (by simp)
  · exact absurd h (by simp)

/-- How a value begins, and what the rest of it comes from. -/
theorem parseValue_cases (text rest : List Char) (value : Value)
    (h : parseValue (fuel + 1) text = some (value, rest)) :
    (∃ tail content, text = '"' :: tail ∧ parseString tail = some (content, rest) ∧ value = .str content) ∨
    (∃ tail, text = '[' :: tail ∧ ((skipSpace tail = ']' :: rest ∧ value = .arr []) ∨
      (∀ other, skipSpace tail ≠ ']' :: other) ∧ ∃ items,
        parseItems fuel (skipSpace tail) = some (items, rest) ∧ value = .arr items)) ∨
    (∃ tail, text = '{' :: tail ∧ ((skipSpace tail = '}' :: rest ∧ value = .obj []) ∨
      (∀ other, skipSpace tail ≠ '}' :: other) ∧ ∃ fields,
        parseFields fuel (skipSpace tail) = some (fields, rest) ∧
          value = .obj (Dict.update [] fields))) ∨
    ((∀ char ∈ text.head?, char ≠ '"' ∧ char ≠ '[' ∧ char ≠ '{') ∧
      isWord (text.takeWhile isBare) = true ∧ value = .word (text.takeWhile isBare) ∧
        rest = text.dropWhile isBare) := by
  by_cases hbare : ∀ char ∈ text.head?, char ≠ '"' ∧ char ≠ '[' ∧ char ≠ '{'
  · right; right; right
    rw [parseValue_bare fuel text hbare] at h
    split_ifs at h with hword
    obtain ⟨rfl, rfl⟩ := Prod.mk.inj (Option.some.inj h)
    exact ⟨hbare, hword, rfl, rfl⟩
  · rw [parseValue.eq_def] at h
    simp only at h
    split at h
    · next tail =>
        left
        split at h
        · next content rest' hcontent =>
            obtain ⟨rfl, rfl⟩ := Prod.mk.inj (Option.some.inj h)
            exact ⟨tail, content, rfl, hcontent, rfl⟩
        · exact absurd h (by simp)
    · next tail =>
        right; left
        refine ⟨tail, rfl, ?_⟩
        split at h
        · next rest' hnext =>
            obtain ⟨rfl, rfl⟩ := Prod.mk.inj (Option.some.inj h)
            exact Or.inl ⟨hnext, rfl⟩
        · next hopen =>
            split at h
            · next items rest' hitems =>
                obtain ⟨rfl, rfl⟩ := Prod.mk.inj (Option.some.inj h)
                exact Or.inr ⟨fun other heq => hopen other heq, items, hitems, rfl⟩
            · exact absurd h (by simp)
    · next tail =>
        right; right; left
        refine ⟨tail, rfl, ?_⟩
        split at h
        · next rest' hnext =>
            obtain ⟨rfl, rfl⟩ := Prod.mk.inj (Option.some.inj h)
            exact Or.inl ⟨hnext, rfl⟩
        · next hopen =>
            split at h
            · next fields rest' hfields =>
                obtain ⟨rfl, rfl⟩ := Prod.mk.inj (Option.some.inj h)
                exact Or.inr ⟨fun other heq => hopen other heq, fields, hfields, rfl⟩
            · exact absurd h (by simp)
    · next hstr harr hobj =>
        refine absurd (fun char hchar => ⟨?_, ?_, ?_⟩) hbare
        · rintro rfl
          obtain ⟨tail, rfl⟩ := List.head?_eq_some_iff.mp hchar
          exact hstr tail rfl
        · rintro rfl
          obtain ⟨tail, rfl⟩ := List.head?_eq_some_iff.mp hchar
          exact harr tail rfl
        · rintro rfl
          obtain ⟨tail, rfl⟩ := List.head?_eq_some_iff.mp hchar
          exact hobj tail rfl

end

theorem takeWhile_append_more (text more : List Char) (h : text.dropWhile isBare ≠ []) :
    (text ++ more).takeWhile isBare = text.takeWhile isBare ∧
      (text ++ more).dropWhile isBare = text.dropWhile isBare ++ more := by
  have hne : ¬ (text.dropWhile isBare).isEmpty = true := by
    rw [List.isEmpty_iff]
    exact h
  constructor
  · have hlength : ¬ (text.takeWhile isBare).length = text.length := by
      intro heq
      have hall := congrArg List.length (List.takeWhile_append_dropWhile (p := isBare) (l := text))
      rw [List.length_append, heq] at hall
      exact h (List.length_eq_zero_iff.mp (by omega))
    rw [List.takeWhile_append, if_neg hlength]
  · rw [List.dropWhile_append, if_neg hne]

theorem skipSpace_append_cons (text tail : List Char) (char : Char) (h : skipSpace text = char :: tail)
    (more : List Char) : skipSpace (text ++ more) = char :: (tail ++ more) := by
  rw [skipSpace_append text more (by rw [h]; exact List.cons_ne_nil _ _), h, List.cons_append]

theorem ne_nil_of_skipSpace (text tail : List Char) (char : Char) (h : skipSpace text = char :: tail) :
    text ≠ [] := by
  rintro rfl
  exact absurd h (by simp [skipSpace])

/-- What was read from a text is read from the text going on, with more fuel too; a word only where the
    text had something behind it. -/
theorem parse_append (fuel : ℕ) :
    (∀ text value rest fuel' more, parseValue fuel text = some (value, rest) → fuel ≤ fuel' →
      (rest = [] → Stops text) → parseValue fuel' (text ++ more) = some (value, rest ++ more)) ∧
    (∀ text items rest fuel' more, parseItems fuel text = some (items, rest) → fuel ≤ fuel' →
      parseItems fuel' (text ++ more) = some (items, rest ++ more)) ∧
    (∀ text fields rest fuel' more, parseFields fuel text = some (fields, rest) → fuel ≤ fuel' →
      parseFields fuel' (text ++ more) = some (fields, rest ++ more)) ∧
    ∀ text field rest fuel' more, parseField fuel text = some (field, rest) → fuel ≤ fuel' → rest ≠ [] →
      parseField fuel' (text ++ more) = some (field, rest ++ more) := by
  induction fuel with
  | zero =>
      refine ⟨?_, ?_, ?_, ?_⟩
      · intro text value rest fuel' more h
        exact absurd h (by simp [parseValue])
      · intro text items rest fuel' more h
        exact absurd h (by simp [parseItems])
      · intro text fields rest fuel' more h
        exact absurd h (by simp [parseFields])
      · intro text field rest fuel' more h
        exact absurd h (by simp [parseField])
  | succ fuel ih =>
      obtain ⟨ihvalue, ihitems, ihfields, ihfield⟩ := ih
      -- what starts behind blanks does so in the longer text
      have hskip : ∀ text more, skipSpace text ≠ [] → skipSpace (text ++ more) = skipSpace text ++ more :=
        skipSpace_append
      have hitemsText : ∀ text items rest, parseItems fuel text = some (items, rest) → text ≠ [] := by
        rintro _ items rest h rfl
        cases fuel with
        | zero => exact absurd h (by simp [parseItems])
        | succ fuel =>
            obtain ⟨item, after, hitem, -⟩ := parseItems_cases fuel [] rest items h
            exact absurd hitem (by rw [parseValue_nil]; simp)
      have hfieldsText : ∀ text fields rest, parseFields fuel text = some (fields, rest) → text ≠ [] := by
        rintro _ fields rest h rfl
        cases fuel with
        | zero => exact absurd h (by simp [parseFields])
        | succ fuel =>
            obtain ⟨field, after, hfield, -⟩ := parseFields_cases fuel [] rest fields h
            cases fuel with
            | zero => exact absurd hfield (by simp [parseField])
            | succ fuel =>
                obtain ⟨tail, -, -, htext, -⟩ := parseField_cases fuel [] after field hfield
                exact absurd htext (by simp)
      refine ⟨?_, ?_, ?_, ?_⟩
      · intro text value rest fuel' more h hfuel hstops
        obtain ⟨fuel', rfl⟩ : ∃ other, fuel' = other + 1 := ⟨fuel' - 1, by omega⟩
        have hle : fuel ≤ fuel' := by omega
        rcases parseValue_cases fuel text rest value h with ⟨tail, content, rfl, hread, rfl⟩ |
          ⟨tail, rfl, ⟨hclose, rfl⟩ | ⟨hopen, items, hread, rfl⟩⟩ |
          ⟨tail, rfl, ⟨hclose, rfl⟩ | ⟨hopen, fields, hread, rfl⟩⟩ | ⟨hbare, hword, rfl, rfl⟩
        · exact parseValue_str fuel' _ _ content (parseString_append tail content rest more hread)
        · exact parseValue_arr_nil fuel' _ _ (skipSpace_append_cons tail rest ']' hclose more)
        · have hne := hitemsText _ _ _ hread
          refine parseValue_arr fuel' (tail ++ more) _ items ?_ ?_
          · obtain ⟨char, other, hchar⟩ := List.exists_cons_of_ne_nil hne
            rw [skipSpace_append_cons tail other char hchar more]
            intro behind heq
            exact hopen other (hchar.trans (by rw [(List.cons.inj heq).1]))
          · rw [hskip tail more hne]
            exact ihitems _ _ _ _ more hread hle
        · exact parseValue_obj_nil fuel' _ _ (skipSpace_append_cons tail rest '}' hclose more)
        · have hne := hfieldsText _ _ _ hread
          refine parseValue_obj fuel' (tail ++ more) _ fields ?_ ?_
          · obtain ⟨char, other, hchar⟩ := List.exists_cons_of_ne_nil hne
            rw [skipSpace_append_cons tail other char hchar more]
            intro behind heq
            exact hopen other (hchar.trans (by rw [(List.cons.inj heq).1]))
          · rw [hskip tail more hne]
            exact ihfields _ _ _ _ more hread hle
        · obtain ⟨char, tail, htake, hchar⟩ := word_cons _ hword
          have htext : ∃ behind, text = char :: behind := by
            cases text with
            | nil => exact absurd htake (by simp)
            | cons first behind =>
                rw [List.takeWhile_cons] at htake
                split_ifs at htake
                exact ⟨behind, by rw [(List.cons.inj htake).1]⟩
          obtain ⟨behind, rfl⟩ := htext
          -- a word that reaches the end of the text is excluded
          have hrest : (char :: behind).dropWhile isBare ≠ [] := by
            intro hnil
            have hstop := hstops hnil char rfl
            rw [hchar] at hstop
            exact absurd hstop (by simp)
          obtain ⟨htake', hdrop'⟩ := takeWhile_append_more (char :: behind) more hrest
          rw [parseValue_bare fuel' (char :: behind ++ more) hbare, htake', hdrop', if_pos hword]
      · intro text items rest fuel' more h hfuel
        obtain ⟨fuel', rfl⟩ : ∃ other, fuel' = other + 1 := ⟨fuel' - 1, by omega⟩
        have hle : fuel ≤ fuel' := by omega
        obtain ⟨item, after, hitem, ⟨hnext, rfl⟩ | ⟨following, others, hnext, hothers, rfl⟩⟩ :=
          parseItems_cases fuel text rest items h
        · have hne := ne_nil_of_skipSpace after rest ']' hnext
          exact parseItems_last fuel' _ _ _ item
            (ihvalue _ _ _ _ more hitem hle (fun hnil => absurd hnil hne))
            (skipSpace_append_cons after rest ']' hnext more)
        · have hne := ne_nil_of_skipSpace after following ',' hnext
          refine parseItems_more fuel' _ _ _ _ item others
            (ihvalue _ _ _ _ more hitem hle (fun hnil => absurd hnil hne))
            (skipSpace_append_cons after following ',' hnext more) ?_
          rw [hskip following more (hitemsText _ _ _ hothers)]
          exact ihitems _ _ _ _ more hothers hle
      · intro text fields rest fuel' more h hfuel
        obtain ⟨fuel', rfl⟩ : ∃ other, fuel' = other + 1 := ⟨fuel' - 1, by omega⟩
        have hle : fuel ≤ fuel' := by omega
        obtain ⟨field, after, hfield, ⟨hnext, rfl⟩ | ⟨following, others, hnext, hothers, rfl⟩⟩ :=
          parseFields_cases fuel text rest fields h
        · have hne := ne_nil_of_skipSpace after rest '}' hnext
          exact parseFields_last fuel' _ _ _ field (ihfield _ _ _ _ more hfield hle hne)
            (skipSpace_append_cons after rest '}' hnext more)
        · have hne := ne_nil_of_skipSpace after following ',' hnext
          refine parseFields_more fuel' _ _ _ _ field others (ihfield _ _ _ _ more hfield hle hne)
            (skipSpace_append_cons after following ',' hnext more) ?_
          rw [hskip following more (hfieldsText _ _ _ hothers)]
          exact ihfields _ _ _ _ more hothers hle
      · intro text field rest fuel' more h hfuel hne
        obtain ⟨fuel', rfl⟩ : ∃ other, fuel' = other + 1 := ⟨fuel' - 1, by omega⟩
        have hle : fuel ≤ fuel' := by omega
        obtain ⟨tail, after, following, rfl, hkey, hnext, hvalue⟩ := parseField_cases fuel text rest field h
        have hfollowing : skipSpace following ≠ [] := by
          intro hnil
          rw [hnil, parseValue_nil] at hvalue
          exact absurd hvalue (by simp)
        refine parseField_step fuel' _ _ _ _ field.1 field.2 (parseString_append tail _ after more hkey)
          (skipSpace_append_cons after following ':' hnext more) ?_
        rw [hskip following more hfollowing]
        exact ihvalue _ _ _ _ more hvalue hle (fun hnil => absurd hnil hne)

/-- **No proper beginning of an object's text is a JSON text.** -/
theorem loads_beginning (fields : List (List Char × Value)) (text more : List Char)
    (h : wellFormed (.obj fields) = true) (htext : dumps (.obj fields) = text ++ more) (hmore : more ≠ []) :
    loads text = none := by
  have hbegin : text = [] ∨ ∃ tail, text = '{' :: tail := by
    cases text with
    | nil => exact Or.inl rfl
    | cons char tail =>
        rw [dumps] at htext
        exact Or.inr ⟨tail, by rw [← (List.cons.inj htext).1]⟩
  rcases hbegin with rfl | ⟨tail, rfl⟩
  · unfold loads
    rw [show skipSpace [] = [] from rfl, parseValue_nil]
  · rcases hread : loads ('{' :: tail) with _ | value
    · rfl
    · exfalso
      unfold loads at hread
      rw [skipSpace_cons '{' tail (by decide)] at hread
      rcases hparse : parseValue (('{' :: tail).length + 1) ('{' :: tail) with _ | ⟨value', rest⟩
      · rw [hparse] at hread
        exact absurd hread (by simp)
      · -- the same would be read from the whole text, but all of it is the object
        have hwhole := (parse_append _).1 _ _ _ ((dumps (.obj fields)).length + 1) more hparse
          (by rw [htext, List.length_append]; omega) (fun _ => stops_cons '{' tail (by decide))
        have hall := parseValue_dumps (.obj fields) ((dumps (.obj fields)).length + 1) []
          (isValue_of_wellFormed _ h) (Nat.le_succ _) (fun other hother => absurd hother (by simp))
        rw [← htext] at hwhole
        rw [List.append_nil, hwhole] at hall
        exact hmore (List.append_eq_nil_iff.mp (Prod.mk.inj (Option.some.inj hall)).2).2

/-! ## Characters -/

theorem escape_printable (char other : Char) (h : other ∈ escape char) : 32 ≤ other.toNat := by
  have hhex : ∀ number < 16, 32 ≤ (hexDigit number).toNat := by decide
  have hshort : ∀ mark, 32 ≤ mark.toNat → other ∈ ['\\', mark] → 32 ≤ other.toNat := by
    intro mark hmark hother
    simp only [List.mem_cons, List.not_mem_nil, or_false] at hother
    rcases hother with rfl | rfl
    · decide
    · exact hmark
  unfold escape at h
  split_ifs at h with hquote hslash hn hr ht hb hf hcontrol
  · exact hshort '"' (by decide) h
  · exact hshort '\\' (by decide) h
  · exact hshort 'n' (by decide) h
  · exact hshort 'r' (by decide) h
  · exact hshort 't' (by decide) h
  · exact hshort 'b' (by decide) h
  · exact hshort 'f' (by decide) h
  · simp only [List.mem_cons, List.not_mem_nil, or_false] at h
    rcases h with rfl | rfl | rfl | rfl | rfl | rfl
    · decide
    · decide
    · decide
    · decide
    · exact hhex _ (by omega)
    · exact hhex _ (by omega)
  · rw [List.mem_singleton.mp h]
    omega

theorem dumpsString_printable (text : List Char) (other : Char) (h : other ∈ dumpsString text) :
    32 ≤ other.toNat := by
  unfold dumpsString at h
  rcases List.mem_cons.mp h with rfl | h
  · decide
  · rcases List.mem_append.mp h with h | h
    · obtain ⟨char, -, hchar⟩ := List.mem_flatMap.mp h
      exact escape_printable char other hchar
    · obtain rfl := List.mem_singleton.mp h
      decide

theorem isBare_printable (char : Char) (h : isBare char = true) : 32 ≤ char.toNat := by
  unfold isBare at h
  simp only [Bool.or_eq_true, beq_iff_eq] at h
  rcases h with ((h | rfl) | rfl) | rfl
  · unfold Char.isAlphanum Char.isAlpha Char.isUpper Char.isLower Char.isDigit at h
    simp only [Bool.or_eq_true, Bool.and_eq_true, decide_eq_true_eq, ge_iff_le, UInt32.le_iff_toNat_le] at h
    have hval : char.val.toNat = char.toNat := rfl
    rw [hval] at h
    rcases h with (⟨h, -⟩ | ⟨h, -⟩) | ⟨h, -⟩
    · exact Nat.le_trans (by decide) h
    · exact Nat.le_trans (by decide) h
    · exact Nat.le_trans (by decide) h
  · decide
  · decide
  · decide

mutual

theorem dumps_printable : ∀ value : Value, wellFormed value = true → ∀ char ∈ dumps value, 32 ≤ char.toNat
  | .word text, h, char, hchar => by
      rw [wellFormed] at h
      rw [dumps] at hchar
      unfold isWord at h
      rw [Bool.and_eq_true, List.all_eq_true] at h
      exact isBare_printable char (h.1 char hchar)
  | .str text, _, char, hchar => by
      rw [dumps] at hchar
      exact dumpsString_printable text char hchar
  | .arr items, h, char, hchar => by
      rw [wellFormed] at h
      rw [dumps] at hchar
      rcases List.mem_cons.mp hchar with rfl | hchar
      · decide
      · rcases List.mem_append.mp hchar with hchar | hchar
        · exact dumpsItems_printable items h char (List.mem_of_mem_drop hchar)
        · obtain rfl := List.mem_singleton.mp hchar
          decide
  | .obj fields, h, char, hchar => by
      rw [wellFormed, Bool.and_eq_true] at h
      rw [dumps] at hchar
      rcases List.mem_cons.mp hchar with rfl | hchar
      · decide
      · rcases List.mem_append.mp hchar with hchar | hchar
        · exact dumpsFields_printable fields h.1 char (List.mem_of_mem_drop hchar)
        · obtain rfl := List.mem_singleton.mp hchar
          decide

theorem dumpsItems_printable : ∀ items : List Value, wellFormedItems items = true →
    ∀ char ∈ dumpsItems items, 32 ≤ char.toNat
  | [], _, char, hchar => by
      rw [dumpsItems] at hchar
      exact absurd hchar List.not_mem_nil
  | item :: rest, h, char, hchar => by
      rw [wellFormedItems, Bool.and_eq_true] at h
      rw [dumpsItems] at hchar
      rcases List.mem_cons.mp hchar with rfl | hchar
      · decide
      · rcases List.mem_append.mp hchar with hchar | hchar
        · exact dumps_printable item h.1 char hchar
        · exact dumpsItems_printable rest h.2 char hchar

theorem dumpsFields_printable : ∀ fields : List (List Char × Value), wellFormedFields fields = true →
    ∀ char ∈ dumpsFields fields, 32 ≤ char.toNat
  | [], _, char, hchar => by
      rw [dumpsFields] at hchar
      exact absurd hchar List.not_mem_nil
  | field :: rest, h, char, hchar => by
      rw [wellFormedFields, Bool.and_eq_true] at h
      rw [dumpsFields] at hchar
      rcases List.mem_cons.mp hchar with rfl | hchar
      · decide
      · rcases List.mem_append.mp hchar with hchar | hchar
        · exact dumpsField_printable field h.1 char hchar
        · exact dumpsFields_printable rest h.2 char hchar

theorem dumpsField_printable : ∀ field : List Char × Value, wellFormedField field = true →
    ∀ char ∈ dumpsField field, 32 ≤ char.toNat
  | (key, value), h, char, hchar => by
      rw [wellFormedField] at h
      rw [dumpsField] at hchar
      rcases List.mem_append.mp hchar with hchar | hchar
      · exact dumpsString_printable key char hchar
      · rcases List.mem_cons.mp hchar with rfl | hchar
        · decide
        · exact dumps_printable value h char hchar

end

end JsonText
