import Mathlib.Algebra.Order.Group.Nat
import Mathlib.Data.List.Infix
import Mathlib.Tactic.Ring

set_option autoImplicit false

/-! # Bytes on a wire

Byte strings read at a position: what stands there, little-endian words of a fixed width, and numbers in
groups of seven bits, low first, every byte but the last marked by its high bit. -/

namespace Wire

/-! ## What stands at a position -/

/-- The bytes stand in the data from the position on. -/
def At (data : List UInt8) (pos : ℕ) (bytes : List UInt8) : Prop := bytes <+: data.drop pos

theorem at_zero (bytes after : List UInt8) : At (bytes ++ after) 0 bytes :=
  List.prefix_append bytes after

variable (data : List UInt8) (pos width number : ℕ)

theorem at_append (first second : List UInt8) :
    At data pos (first ++ second) ↔ At data pos first ∧ At data (pos + first.length) second := by
  unfold At
  constructor
  · rintro ⟨after, hafter⟩
    rw [List.append_assoc] at hafter
    refine ⟨⟨_, hafter⟩, after, ?_⟩
    rw [← List.drop_drop, ← hafter, List.drop_left]
  · rintro ⟨⟨rest, hrest⟩, after, hafter⟩
    refine ⟨after, ?_⟩
    rw [← List.drop_drop, ← hrest, List.drop_left] at hafter
    rw [← hrest, ← hafter, List.append_assoc]

theorem At.slice {data bytes : List UInt8} {pos : ℕ} (h : At data pos bytes) :
    (data.drop pos).take bytes.length = bytes := by
  obtain ⟨after, hafter⟩ := h
  rw [← hafter, List.take_left]

theorem At.length_le {data bytes : List UInt8} {pos : ℕ} (h : At data pos bytes) (hpos : pos ≤ data.length) :
    pos + bytes.length ≤ data.length := by
  have hle := List.IsPrefix.length_le h
  rw [List.length_drop] at hle
  omega

/-! ## Words -/

/-- The number that the bytes stand for, the low byte first. -/
def ofWord : List UInt8 → ℕ
  | [] => 0
  | byte :: bytes => byte.toNat + 256 * ofWord bytes

/-- The lowest bytes of a number, as many as the width says. -/
def toWord : ℕ → ℕ → List UInt8
  | 0, _ => []
  | width + 1, number => UInt8.ofNat number :: toWord width (number / 256)

@[simp] theorem length_toWord : (toWord width number).length = width := by
  induction width generalizing number with
  | zero => rfl
  | succ width ih => rw [toWord, List.length_cons, ih]

theorem ofWord_toWord (h : number < 256 ^ width) :
    ofWord (toWord width number) = number := by
  induction width generalizing number with
  | zero =>
      rw [pow_zero] at h
      obtain rfl : number = 0 := by omega
      rfl
  | succ width ih =>
      have hquotient : number / 256 < 256 ^ width := by
        rw [pow_succ] at h
        exact Nat.div_lt_of_lt_mul (by omega)
      rw [toWord, ofWord, ih _ hquotient, UInt8.toNat_ofNat']
      omega

/-- The word of the width at a position, where the data has all its bytes. -/
def readWord (data : List UInt8) (pos width : ℕ) : Option ℕ :=
  let slice := (data.drop pos).take width
  if slice.length = width then some (ofWord slice) else none

theorem readWord_at (hlt : number < 256 ^ width)
    (h : At data pos (toWord width number)) : readWord data pos width = some number := by
  have hslice := h.slice
  rw [length_toWord] at hslice
  unfold readWord
  rw [hslice, if_pos (length_toWord width number), ofWord_toWord width number hlt]

/-! ## Groups of seven bits -/

/-- A number in groups of seven bits, the low group first. -/
def groups (number : ℕ) : List UInt8 :=
  if number < 128 then [UInt8.ofNat number]
  else UInt8.ofNat (128 + number % 128) :: groups (number / 128)
termination_by number

theorem groups_of_lt {number : ℕ} (h : number < 128) : groups number = [UInt8.ofNat number] := by
  rw [groups, if_pos h]

theorem groups_of_le {number : ℕ} (h : 128 ≤ number) :
    groups number = UInt8.ofNat (128 + number % 128) :: groups (number / 128) := by
  rw [groups, if_neg (by omega)]

theorem groups_induction {motive : ℕ → Prop} (last : ∀ number, number < 128 → motive number)
    (more : ∀ number, 128 ≤ number → motive (number / 128) → motive number) (number : ℕ) :
    motive number := by
  induction number using Nat.strong_induction_on with
  | _ number ih =>
      by_cases h : number < 128
      · exact last number h
      · exact more number (by omega) (ih (number / 128) (by omega))

theorem length_groups_pos : 0 < (groups number).length := by
  by_cases h : number < 128
  · rw [groups_of_lt h]
    exact Nat.one_pos
  · rw [groups_of_le (by omega)]
    exact Nat.succ_pos _

theorem length_groups_le (width : ℕ) (hwidth : 0 < width) (h : number < 128 ^ width) :
    (groups number).length ≤ width := by
  induction width generalizing number with
  | zero => exact absurd hwidth (lt_irrefl 0)
  | succ width ih =>
      by_cases hlt : number < 128
      · rw [groups_of_lt hlt]
        exact hwidth
      · rw [groups_of_le (by omega), List.length_cons]
        have hpos : 0 < width := by
          rcases Nat.eq_zero_or_pos width with rfl | hpos
          · exact absurd h (by omega)
          · exact hpos
        have hquotient : number / 128 < 128 ^ width := by
          rw [pow_succ] at h
          exact Nat.div_lt_of_lt_mul (by omega)
        have hrest := ih (number / 128) hpos hquotient
        omega

/-! ## Bits of a byte -/

section

variable (byte : UInt8)

theorem and_7f : (byte &&& 0x7F).toNat = byte.toNat % 128 := by
  rw [UInt8.toNat_and]
  exact Nat.and_two_pow_sub_one_eq_mod byte.toNat 7

theorem and_3f : (byte &&& 0x3F).toNat = byte.toNat % 64 := by
  rw [UInt8.toNat_and]
  exact Nat.and_two_pow_sub_one_eq_mod byte.toNat 6

theorem and_80_eq_zero_iff : byte &&& 0x80 = 0 ↔ byte.toNat < 128 := by
  have hall : ∀ n < 256, n &&& 128 = 0 ↔ n < 128 := by decide +kernel
  rw [← UInt8.toNat_inj, UInt8.toNat_and]
  exact hall byte.toNat byte.toNat_lt

theorem and_40_eq_zero_iff : byte &&& 0x40 = 0 ↔ byte.toNat / 64 % 2 = 0 := by
  have hall : ∀ n < 256, n &&& 64 = 0 ↔ n / 64 % 2 = 0 := by decide +kernel
  rw [← UInt8.toNat_inj, UInt8.toNat_and]
  exact hall byte.toNat byte.toNat_lt

end

end Wire
