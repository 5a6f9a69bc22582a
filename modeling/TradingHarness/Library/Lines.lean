import Mathlib.Data.List.Basic

set_option autoImplicit false

/-! # Lines of a text

A text file is read with universal newlines and split wherever a line may end. Besides the newline that is
written there are other characters that end a line. -/

namespace Lines

/-- The characters that end a line. -/
def isBreak (char : Char) : Bool :=
  char.toNat ∈ [0x0A, 0x0B, 0x0C, 0x0D, 0x1C, 0x1D, 0x1E, 0x85, 0x2028, 0x2029]

/-- The text of a file: a carriage return, with or without a newline behind it, is a newline. -/
def readText : List Char → List Char
  | [] => []
  | '\r' :: '\n' :: rest => '\n' :: readText rest
  | char :: rest => (if char = '\r' then '\n' else char) :: readText rest

/-- The lines of a text, without the characters that end them. -/
def splitLines : List Char → List (List Char)
  | [] => []
  | '\r' :: '\n' :: rest => [] :: splitLines rest
  | char :: rest =>
    if isBreak char then [] :: splitLines rest
    else
      match splitLines rest with
      | [] => [[char]]
      | line :: lines => (char :: line) :: lines

/-! ## Reading -/

variable (text : List Char) (char : Char) (rest : List Char)

theorem readText_cons (h : char ≠ '\r') :
    readText (char :: rest) = char :: readText rest := by
  rw [readText.eq_def]
  split
  · next heq => exact absurd heq (by simp)
  · next heq => exact absurd (List.cons.inj heq).1 h
  · next heq =>
      obtain ⟨rfl, rfl⟩ := List.cons.inj heq
      rw [if_neg h]

theorem readText_eq (h : '\r' ∉ text) : readText text = text := by
  induction text with
  | nil => rfl
  | cons char rest ih =>
      rw [List.mem_cons, not_or] at h
      rw [readText_cons char rest (Ne.symm h.1), ih h.2]

theorem readText_append (h : '\r' ∉ text) :
    readText (text ++ rest) = text ++ readText rest := by
  induction text with
  | nil => rfl
  | cons char text ih =>
      rw [List.mem_cons, not_or] at h
      rw [List.cons_append, readText_cons char _ (Ne.symm h.1), ih h.2, List.cons_append]

/-! ## Splitting -/

theorem splitLines_break (h : isBreak char = true) (hcr : char ≠ '\r') :
    splitLines (char :: rest) = [] :: splitLines rest := by
  rw [splitLines.eq_def]
  split
  · next heq => exact absurd heq (by simp)
  · next heq => exact absurd (List.cons.inj heq).1 hcr
  · next heq =>
      obtain ⟨rfl, rfl⟩ := List.cons.inj heq
      rw [if_pos h]

theorem splitLines_plain (h : isBreak char = false) :
    splitLines (char :: rest) = match splitLines rest with
      | [] => [[char]]
      | line :: lines => (char :: line) :: lines := by
  have hcr : char ≠ '\r' := by
    rintro rfl
    exact absurd h (by decide)
  have hnot : ¬ isBreak char = true := by
    rw [h]
    exact Bool.false_ne_true
  rw [splitLines.eq_def]
  split
  · next heq => exact absurd heq (by simp)
  · next heq => exact absurd (List.cons.inj heq).1 hcr
  · next heq =>
      obtain ⟨rfl, rfl⟩ := List.cons.inj heq
      rw [if_neg hnot]

theorem splitLines_ne_nil :
    splitLines (text ++ char :: rest) ≠ [] := by
  obtain ⟨first, others, htext⟩ : ∃ first others, text ++ char :: rest = first :: others :=
    List.exists_cons_of_ne_nil (by simp)
  rw [htext, splitLines.eq_def]
  split
  · next heq => exact absurd heq (by simp)
  · exact List.cons_ne_nil _ _
  · split
    · exact List.cons_ne_nil _ _
    · split
      · exact List.cons_ne_nil _ _
      · exact List.cons_ne_nil _ _

theorem splitLines_first (line rest : List Char) (char : Char) (h : ∀ other ∈ line, isBreak other = false)
    (hchar : isBreak char = true) : ∃ lines, splitLines (line ++ char :: rest) = line :: lines := by
  induction line with
  | nil =>
      rw [List.nil_append, splitLines.eq_def]
      split
      · next heq => exact absurd heq (by simp)
      · exact ⟨_, rfl⟩
      · next heq =>
          obtain ⟨rfl, rfl⟩ := List.cons.inj heq
          rw [if_pos hchar]
          exact ⟨_, rfl⟩
  | cons first line ih =>
      obtain ⟨lines, hlines⟩ := ih (fun other hother => h other (List.mem_cons_of_mem first hother))
      rw [List.cons_append, splitLines_plain first _ (h first List.mem_cons_self), hlines]
      exact ⟨lines, rfl⟩

theorem splitLines_line (line rest : List Char) (h : ∀ char ∈ line, isBreak char = false) :
    splitLines (line ++ '\n' :: rest) = line :: splitLines rest := by
  induction line with
  | nil => exact splitLines_break '\n' rest (by decide) (by decide)
  | cons first line ih =>
      rw [List.cons_append, splitLines_plain first _ (h first List.mem_cons_self),
        ih (fun char hchar => h char (List.mem_cons_of_mem first hchar))]

theorem splitLines_begins (start rest : List Char) (h : ∀ char ∈ start, isBreak char = false) (hne : start ≠ []) :
    ∃ more lines, splitLines (start ++ rest) = (start ++ more) :: lines ∧ (rest = [] → more = []) := by
  induction start with
  | nil => exact absurd rfl hne
  | cons first start ih =>
      rw [List.cons_append, splitLines_plain first _ (h first List.mem_cons_self)]
      rcases start with _ | ⟨next, start⟩
      · rw [List.nil_append]
        rcases hlines : splitLines rest with _ | ⟨line, lines⟩
        · exact ⟨[], [], rfl, fun _ => rfl⟩
        · refine ⟨line, lines, rfl, fun hrest => ?_⟩
          rw [hrest] at hlines
          cases hlines
      · obtain ⟨more, lines, hlines, hmore⟩ :=
          ih (fun char hchar => h char (List.mem_cons_of_mem first hchar)) (List.cons_ne_nil _ _)
        rw [hlines]
        exact ⟨more, lines, rfl, hmore⟩

theorem splitLines_append (h : '\r' ∉ text) :
    splitLines (text ++ '\n' :: rest) = splitLines (text ++ ['\n']) ++ splitLines rest := by
  induction text with
  | nil => exact splitLines_break '\n' rest (by decide) (by decide)
  | cons char text ih =>
      rw [List.mem_cons, not_or] at h
      rw [List.cons_append, List.cons_append]
      rcases hchar : isBreak char with _ | _
      · rw [splitLines_plain char _ hchar, splitLines_plain char _ hchar, ih h.2]
        rcases hlines : splitLines (text ++ ['\n']) with _ | ⟨line, lines⟩
        · exact absurd hlines (splitLines_ne_nil text '\n' [])
        · rfl
      · rw [splitLines_break char _ hchar (Ne.symm h.1), splitLines_break char _ hchar (Ne.symm h.1),
          ih h.2, List.cons_append]

end Lines
