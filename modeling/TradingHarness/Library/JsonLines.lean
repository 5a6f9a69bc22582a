import TradingHarness.Library.JsonKeys
import TradingHarness.Library.Lines

set_option autoImplicit false

/-! # JSON lines

A text of one JSON text per line. A JSON text escapes the control characters, but there are three more
characters that end a line: a value whose text has one of them is torn apart when the lines are split, and
a piece of an object is no JSON text. -/

namespace JsonLines

open JsonText
open Lines

/-- The characters that end a line and that JSON leaves as they are. -/
def isSeparator (char : Char) : Bool := char.toNat ∈ [0x85, 0x2028, 0x2029]

/-- A JSON text and its newline. -/
def lineOf (value : Value) : List Char := canonical value ++ ['\n']

/-- The values of the lines that hold a text. -/
def parseLines (lines : List (List Char)) : Option (List Value) :=
  (lines.filter (fun line => !line.isEmpty)).mapM loads

/-- The text of the value stays on its line. -/
def Whole (value : Value) : Prop := ∀ char ∈ canonical value, isSeparator char = false

theorem whole_iff (value : Value) :
    Whole value ↔ ∀ char, isSeparator char = true → char ∉ canonical value := by
  constructor
  · intro h char hsep hmem
    rw [h char hmem] at hsep
    exact Bool.false_ne_true hsep
  · intro h char hmem
    rcases hsep : isSeparator char with _ | _
    · rfl
    · exact absurd hmem (h char hsep)

theorem isSeparator_wide (char : Char) (h : isSeparator char = true) : 128 ≤ char.toNat := by
  unfold isSeparator at h
  rw [decide_eq_true_iff] at h
  simp only [List.mem_cons, List.not_mem_nil, or_false] at h
  omega

variable (values : List Value) (fields : List (List Char × Value)) (text more : List Char)

theorem whole_str : Whole (.str text) ↔ ∀ char ∈ text, isSeparator char = false := by
  have hmem : ∀ char, isSeparator char = true → (char ∈ canonical (.str text) ↔ char ∈ text) :=
    fun char hsep => mem_canonical_str char (isSeparator_wide char hsep) text
  rw [whole_iff]
  constructor
  · intro h char hchar
    rcases hsep : isSeparator char with _ | _
    · rfl
    · exact absurd ((hmem char hsep).mpr hchar) (h char hsep)
  · intro h char hsep hchar
    rw [h char ((hmem char hsep).mp hchar)] at hsep
    exact Bool.false_ne_true hsep

theorem whole_word (h : isWord text = true) : Whole (.word text) := by
  rw [whole_iff]
  intro char hsep
  unfold canonical
  rw [sortKeys, dumps]
  exact not_mem_word char (isSeparator_wide char hsep) text h

theorem whole_obj (hkeys : (fields.map Prod.fst).all (·.all (fun char => decide (char.toNat < 128))) = true) :
    Whole (.obj fields) ↔ ∀ field ∈ fields, Whole field.2 := by
  have hkey : ∀ field ∈ fields, ∀ char, isSeparator char = true → char ∉ field.1 := by
    intro field hfield char hsep hmem
    have hwide := isSeparator_wide char hsep
    have hall := List.all_eq_true.mp (List.all_eq_true.mp hkeys field.1 (List.mem_map_of_mem hfield)) char hmem
    have hlt := of_decide_eq_true hall
    omega
  constructor
  · intro h field hfield
    rw [whole_iff] at h ⊢
    intro char hsep hmem
    exact h char hsep ((mem_canonical_obj char (isSeparator_wide char hsep) fields).mpr
      ⟨field, hfield, Or.inr hmem⟩)
  · intro h
    rw [whole_iff]
    intro char hsep hmem
    obtain ⟨field, hfield, hchar⟩ := (mem_canonical_obj char (isSeparator_wide char hsep) fields).mp hmem
    rcases hchar with hchar | hchar
    · exact hkey field hfield char hsep hchar
    · exact (whole_iff field.2).mp (h field hfield) char hsep hchar

theorem isBreak_of_isSeparator (char : Char) (h : isSeparator char = true) : isBreak char = true := by
  unfold isSeparator at h
  unfold isBreak
  rw [decide_eq_true_iff] at h ⊢
  simp only [List.mem_cons, List.not_mem_nil, or_false] at h ⊢
  omega

theorem unbroken (h : text.all (fun char => !isBreak char) = true) :
    ∀ char ∈ text, isSeparator char = false := by
  intro char hchar
  have hbreak := List.all_eq_true.mp h char hchar
  rw [Bool.not_eq_true'] at hbreak
  rcases hsep : isSeparator char with _ | _
  · rfl
  · rw [← hbreak]
    exact (isBreak_of_isSeparator char hsep).symm

theorem isSeparator_of_isBreak (char : Char) (h : isBreak char = true) (hprintable : 32 ≤ char.toNat) :
    isSeparator char = true := by
  unfold isBreak at h
  unfold isSeparator
  rw [decide_eq_true_iff] at h ⊢
  simp only [List.mem_cons, List.not_mem_nil, or_false] at h ⊢
  omega

theorem canonical_printable (value : Value) (h : isValue value = true) :
    ∀ char ∈ canonical value, 32 ≤ char.toNat :=
  dumps_printable (sortKeys value) (wellFormed_sortKeys value h)

theorem canonical_ne_nil (value : Value) (h : isValue value = true) : canonical value ≠ [] := by
  obtain ⟨char, rest, htext, -⟩ := dumps_cons (sortKeys value)
    (isValue_of_wellFormed _ (wellFormed_sortKeys value h))
  unfold canonical
  rw [htext]
  exact List.cons_ne_nil char rest

/-! ## Lines of values -/

theorem readText_lines (h : ∀ value ∈ values, isValue value = true) :
    readText (values.flatMap lineOf) = values.flatMap lineOf := by
  refine readText_eq _ (fun hmem => ?_)
  obtain ⟨value, hvalue, hchar⟩ := List.mem_flatMap.mp hmem
  rcases List.mem_append.mp hchar with hchar | hchar
  · exact absurd (canonical_printable value (h value hvalue) _ hchar) (by decide)
  · exact absurd (List.mem_singleton.mp hchar) (by decide)

theorem splitLines_value (value : Value) (rest : List Char) (hvalue : isValue value = true)
    (h : Whole value) : splitLines (lineOf value ++ rest) = canonical value :: splitLines rest := by
  have hplain : ∀ char ∈ canonical value, isBreak char = false := by
    intro char hchar
    rcases hbreak : isBreak char with _ | _
    · rfl
    · have hsep := isSeparator_of_isBreak char hbreak (canonical_printable value hvalue char hchar)
      exact absurd hchar ((whole_iff value).mp h char hsep)
  unfold lineOf
  rw [List.append_assoc, List.singleton_append, splitLines_line _ _ hplain]

theorem splitLines_lines (rest : List Char)
    (hvalue : ∀ value ∈ values, isValue value = true) (h : ∀ value ∈ values, Whole value) :
    splitLines (values.flatMap lineOf ++ rest) = values.map canonical ++ splitLines rest := by
  induction values with
  | nil => rfl
  | cons value values ih =>
      rw [List.flatMap_cons, List.append_assoc, splitLines_value value _ (hvalue value List.mem_cons_self)
        (h value List.mem_cons_self), List.map_cons, List.cons_append,
        ih (fun other hother => hvalue other (List.mem_cons_of_mem _ hother))
          (fun other hother => h other (List.mem_cons_of_mem _ hother))]

theorem parseLines_canonical (h : ∀ value ∈ values, isValue value = true) :
    parseLines (values.map canonical) = some (values.map sortKeys) := by
  unfold parseLines
  rw [List.filter_eq_self.mpr]
  · induction values with
    | nil => rfl
    | cons value values ih =>
        rw [List.map_cons, List.mapM_cons, loads_canonical value (h value List.mem_cons_self),
          ih (fun other hother => h other (List.mem_cons_of_mem _ hother))]
        rfl
  · intro line hline
    obtain ⟨value, hvalue, rfl⟩ := List.mem_map.mp hline
    rw [Bool.not_eq_true', List.isEmpty_eq_false_iff]
    exact canonical_ne_nil value (h value hvalue)

/-- **Whole values are read back from their lines**, behind any number of them. -/
theorem parseLines_drop (count : ℕ) (hvalue : ∀ value ∈ values, isValue value = true)
    (h : ∀ value ∈ values, Whole value) :
    parseLines ((splitLines (readText (values.flatMap lineOf))).drop count)
      = some ((values.drop count).map sortKeys) := by
  have hsplit := splitLines_lines values [] hvalue h
  rw [List.append_nil] at hsplit
  rw [readText_lines values hvalue, hsplit, show splitLines [] = [] from rfl, List.append_nil,
    ← List.map_drop, parseLines_canonical _ (fun value hmem => hvalue value (List.mem_of_mem_drop hmem))]

/-! ## Torn values -/

variable (lines : List (List Char)) (line : List Char)

theorem mapM_loads_none (hline : line ∈ lines)
    (h : loads line = none) : lines.mapM loads = none := by
  induction lines with
  | nil => exact absurd hline List.not_mem_nil
  | cons first rest ih =>
      rw [List.mapM_cons]
      rcases List.mem_cons.mp hline with rfl | hrest
      · rw [h]
        rfl
      · rw [ih hrest]
        rcases loads first with _ | value
        · rfl
        · rfl

theorem torn_split (value : Value) (h : ¬ Whole value) :
    ∃ line char rest, canonical value = line ++ char :: rest ∧ isBreak char = true ∧
      ∀ other ∈ line, isBreak other = false := by
  have hmem : ∃ char ∈ canonical value, isBreak char = true := by
    unfold Whole at h
    push Not at h
    obtain ⟨char, hchar, hsep⟩ := h
    exact ⟨char, hchar, isBreak_of_isSeparator char (by simpa using hsep)⟩
  have hfind := (List.find?_isSome (p := isBreak)).mpr hmem
  obtain ⟨char, hchar⟩ := Option.isSome_iff_exists.mp hfind
  obtain ⟨hbreak, line, rest, htext, hline⟩ := List.find?_eq_some_iff_append.mp hchar
  exact ⟨line, char, rest, htext, hbreak, fun other hother => by simpa using hline other hother⟩

theorem splitLines_behind (rest : List Char)
    (h : ∀ value ∈ values, isValue value = true) :
    splitLines (values.flatMap lineOf ++ rest) = splitLines (values.flatMap lineOf) ++ splitLines rest := by
  induction values with
  | nil => rfl
  | cons value values ih =>
      have hcr : '\r' ∉ canonical value := fun hmem =>
        absurd (canonical_printable value (h value List.mem_cons_self) _ hmem) (by decide)
      have hline : ∀ text, lineOf value ++ text = canonical value ++ '\n' :: text := by
        intro text
        unfold lineOf
        rw [List.append_assoc, List.singleton_append]
      rw [List.flatMap_cons, List.append_assoc, hline, hline, splitLines_append _ _ hcr,
        splitLines_append _ (values.flatMap lineOf) hcr, List.append_assoc,
        ih (fun other hother => h other (List.mem_cons_of_mem _ hother))]

theorem loads_piece (line rest : List Char) (char : Char)
    (hvalue : isValue (.obj fields) = true) (htext : canonical (.obj fields) = line ++ char :: rest)
    (hbreak : isBreak char = true) : line ≠ [] ∧ loads line = none := by
  unfold canonical at htext
  have hwell := wellFormed_sortKeys _ hvalue
  rw [sortKeys] at htext hwell
  constructor
  · rintro rfl
    rw [dumps, List.nil_append] at htext
    rw [← (List.cons.inj htext).1] at hbreak
    exact absurd hbreak (by decide)
  · exact loads_beginning _ line (char :: rest) hwell htext (List.cons_ne_nil char rest)

/-- **A torn object spoils the lines it stands on**, wherever it stands behind the first line. -/
theorem parseLines_torn (first : Value) (values : List Value) (fields : List (List Char × Value))
    (hfirst : isValue first = true) (hvalue : ∀ value ∈ values, isValue value = true)
    (hmem : .obj fields ∈ values) (h : ¬ Whole (.obj fields)) :
    parseLines ((splitLines (readText ((first :: values).flatMap lineOf))).drop 1) = none := by
  obtain ⟨before, after, rfl⟩ := List.append_of_mem hmem
  obtain ⟨line, char, rest, htext, hbreak, hline⟩ := torn_split (.obj fields) h
  obtain ⟨hne, hloads⟩ := loads_piece fields line rest char (hvalue _ hmem) htext hbreak
  have hall : ∀ value ∈ first :: (before ++ .obj fields :: after), isValue value = true :=
    List.forall_mem_cons.mpr ⟨hfirst, hvalue⟩
  have hbefore : ∀ value ∈ first :: before, isValue value = true := by
    intro value hmem
    rcases List.mem_cons.mp hmem with rfl | hmem
    · exact hfirst
    · exact hvalue value (List.mem_append_left _ hmem)
  -- the lines up to the torn object, and its first piece
  obtain ⟨lines, hlines⟩ := splitLines_first line (rest ++ ('\n' :: after.flatMap lineOf)) char hline hbreak
  have htorn : (Value.obj fields :: after).flatMap lineOf
      = line ++ char :: (rest ++ '\n' :: after.flatMap lineOf) := by
    rw [List.flatMap_cons]
    conv_lhs => enter [1]; unfold lineOf
    rw [htext]
    simp only [List.append_assoc, List.cons_append, List.nil_append]
  have hsplit : splitLines ((first :: (before ++ .obj fields :: after)).flatMap lineOf)
      = splitLines ((first :: before).flatMap lineOf) ++ line :: lines := by
    rw [← List.cons_append, List.flatMap_append, splitLines_behind _ _ hbefore, htorn, hlines]
  have hhead : 1 ≤ (splitLines ((first :: before).flatMap lineOf)).length := by
    rw [List.flatMap_cons]
    unfold lineOf
    rw [List.append_assoc, List.singleton_append, Nat.one_le_iff_ne_zero, Ne, List.length_eq_zero_iff]
    exact splitLines_ne_nil _ _ _
  rw [readText_lines _ hall, hsplit, List.drop_append_of_le_length hhead]
  unfold parseLines
  refine mapM_loads_none _ line (List.mem_filter.mpr ⟨?_, ?_⟩) hloads
  · exact List.mem_append_right _ List.mem_cons_self
  · rw [Bool.not_eq_true', List.isEmpty_eq_false_iff]
    exact hne

/-! ## Cut texts -/

theorem parseLines_none (hline : line ∈ lines) (hne : line ≠ [])
    (h : loads line = none) : parseLines lines = none := by
  refine mapM_loads_none _ line (List.mem_filter.mpr ⟨hline, ?_⟩) h
  rw [Bool.not_eq_true', List.isEmpty_eq_false_iff]
  exact hne

theorem parseLines_none_of_drop (count : ℕ)
    (h : parseLines (lines.drop count) = none) : parseLines lines = none := by
  unfold parseLines at h ⊢
  have hsplit : lines.filter (fun line => !line.isEmpty)
      = (lines.take count).filter (fun line => !line.isEmpty)
        ++ (lines.drop count).filter (fun line => !line.isEmpty) := by
    rw [← List.filter_append, List.take_append_drop]
  rw [hsplit, List.mapM_append, h]
  simp

theorem not_mem_lines (h : ∀ value ∈ values, isValue value = true) :
    '\r' ∉ values.flatMap lineOf := by
  intro hmem
  obtain ⟨value, hvalue, hchar⟩ := List.mem_flatMap.mp hmem
  rcases List.mem_append.mp hchar with hchar | hchar
  · exact absurd (canonical_printable value (h value hvalue) _ hchar) (by decide)
  · exact absurd (List.mem_singleton.mp hchar) (by decide)

theorem parseLines_behind (line : List Char) (lines : List (List Char))
    (h : ∀ value ∈ values, isValue value = true) (htext : splitLines (readText text) = line :: lines)
    (hne : line ≠ []) (hline : loads line = none) :
    parseLines (splitLines (readText (values.flatMap lineOf ++ text))) = none := by
  rw [readText_append _ _ (not_mem_lines values h), splitLines_behind values _ h, htext]
  exact parseLines_none _ line (List.mem_append_right _ List.mem_cons_self) hne hline

/-- **A text that is cut off behind some lines does not parse**, unless only its newline is cut off. -/
theorem cut_of_parseLines (h : ∀ value ∈ values, isValue value = true) (hvalue : isValue (.obj fields) = true)
    (htext : canonical (.obj fields) = text ++ more) (hne : text ≠ [])
    (hparse : parseLines (splitLines (readText (values.flatMap lineOf ++ text))) ≠ none) :
    more = [] ∧ ∀ char ∈ text, isBreak char = false := by
  have hread : readText text = text := readText_eq _ (fun hmem =>
    absurd (canonical_printable _ hvalue '\r' (by rw [htext]; exact List.mem_append_left _ hmem)) (by decide))
  by_cases hbroken : ∃ char ∈ text, isBreak char = true
  · -- the text is torn, and its first piece does not parse
    exfalso
    have hfind := (List.find?_isSome (p := isBreak)).mpr hbroken
    obtain ⟨char, hchar⟩ := Option.isSome_iff_exists.mp hfind
    obtain ⟨hbreak, line, rest, hpieces, hline⟩ := List.find?_eq_some_iff_append.mp hchar
    obtain ⟨lines, hlines⟩ := splitLines_first line rest char (fun other hother => by simpa using hline other hother)
      hbreak
    have hpiece := loads_piece fields line (rest ++ more) char hvalue
      (by rw [htext, hpieces, List.append_assoc, List.cons_append]) hbreak
    refine hparse (parseLines_behind values text line lines h ?_ hpiece.1 hpiece.2)
    rw [hread, hpieces, hlines]
  · push Not at hbroken
    have hplain : ∀ char ∈ text, isBreak char = false := fun char hchar => by simpa using hbroken char hchar
    refine ⟨?_, hplain⟩
    by_contra hmore
    obtain ⟨behind, lines, hlines, hnone⟩ := splitLines_begins text [] hplain hne
    rw [List.append_nil, hnone rfl, List.append_nil] at hlines
    refine hparse (parseLines_behind values text text lines h (by rw [hread, hlines]) hne ?_)
    unfold canonical at htext
    have hwell := wellFormed_sortKeys _ hvalue
    rw [sortKeys] at htext hwell
    exact loads_beginning _ text more hwell htext hmore

/-- **An object that follows another on its line spoils the line.** -/
theorem parseLines_joined (rest : List Char)
    (h : ∀ value ∈ values, isValue value = true) (hvalue : isValue (.obj fields) = true)
    (hplain : ∀ char ∈ canonical (.obj fields), isBreak char = false) :
    parseLines (splitLines (readText (values.flatMap lineOf ++ (canonical (.obj fields) ++ '{' :: rest)))) = none := by
  have hcr : '\r' ∉ canonical (.obj fields) ++ ['{'] := by
    intro hmem
    rcases List.mem_append.mp hmem with hmem | hmem
    · exact absurd (hplain _ hmem) (by decide)
    · exact absurd (List.mem_singleton.mp hmem) (by decide)
  have hstart : ∀ char ∈ canonical (.obj fields) ++ ['{'], isBreak char = false := by
    intro char hchar
    rcases List.mem_append.mp hchar with hchar | hchar
    · exact hplain char hchar
    · rw [List.mem_singleton.mp hchar]
      rfl
  obtain ⟨more, lines, hlines, -⟩ :=
    splitLines_begins (canonical (.obj fields) ++ ['{']) (readText rest) hstart (List.append_ne_nil_of_right_ne_nil _ (by simp))
  have htext : splitLines (readText (canonical (.obj fields) ++ '{' :: rest))
      = (canonical (.obj fields) ++ '{' :: more) :: lines := by
    rw [List.append_cons, readText_append _ _ hcr, hlines, ← List.append_cons]
  refine parseLines_behind values _ _ lines h htext (by simp) ?_
  exact loads_followed _ '{' more (isValue_of_wellFormed _ (wellFormed_sortKeys _ hvalue)) rfl rfl

end JsonLines
