import Mathlib.Data.Nat.Bitwise
import Mathlib.Tactic.Ring

set_option autoImplicit false

/-! # Sets of bits in bytes

Bit `n` of a byte string is bit `n % 8` of its byte `n / 8`. -/

namespace Bitmap

/-- The bit is set. -/
def hasBit (bytes : List UInt8) (bit : ℕ) : Prop :=
  (bytes.getD (bit / 8) 0).toNat &&& (1 <<< (bit % 8)) ≠ 0

instance (bytes : List UInt8) : DecidablePred (hasBit bytes) :=
  fun _ => inferInstanceAs (Decidable (_ ≠ _))

/-- The bytes with the bit set. -/
def setBit (bytes : List UInt8) (bit : ℕ) : List UInt8 :=
  bytes.modify (bit / 8) (fun byte => byte ||| UInt8.ofNat (1 <<< (bit % 8)))

variable (bytes : List UInt8) (bit : ℕ)

@[simp] theorem length_setBit :
    (setBit bytes bit).length = bytes.length :=
  List.length_modify ..

theorem hasBit_iff :
    hasBit bytes bit ↔ (bytes.getD (bit / 8) 0).toNat.testBit (bit % 8) = true := by
  unfold hasBit
  rw [Nat.one_shiftLeft, Nat.and_two_pow]
  rcases (bytes.getD (bit / 8) 0).toNat.testBit (bit % 8)
  · simp
  · simp

theorem not_hasBit_of_le (h : bytes.length ≤ bit / 8) :
    ¬ hasBit bytes bit := by
  rw [hasBit_iff, List.getD_eq_default _ _ h]
  simp

theorem hasBit_setBit (other : ℕ) (h : bit / 8 < bytes.length) :
    hasBit (setBit bytes bit) other ↔ other = bit ∨ hasBit bytes other := by
  rw [hasBit_iff, hasBit_iff]
  by_cases hbyte : other / 8 = bit / 8
  · have hlt : other / 8 < bytes.length := by omega
    have hmask : (UInt8.ofNat (1 <<< (bit % 8))).toNat = 2 ^ (bit % 8) := by
      rw [UInt8.toNat_ofNat', Nat.one_shiftLeft]
      exact Nat.mod_eq_of_lt (Nat.pow_lt_pow_right (by decide) (by omega))
    have hget : (setBit bytes bit).getD (other / 8) 0
        = bytes.getD (other / 8) 0 ||| UInt8.ofNat (1 <<< (bit % 8)) := by
      unfold setBit
      rw [List.getD_eq_getElem _ _ (by rwa [List.length_modify]), List.getD_eq_getElem _ _ hlt,
        List.getElem_modify, if_pos hbyte.symm]
    rw [hget, UInt8.toNat_or, hmask, Nat.testBit_or, Nat.testBit_two_pow, Bool.or_eq_true,
      decide_eq_true_eq]
    constructor
    · rintro (hbit | hbit)
      · exact Or.inr hbit
      · exact Or.inl (by omega)
    · rintro (rfl | hbit)
      · exact Or.inr rfl
      · exact Or.inl hbit
  · have hget : (setBit bytes bit).getD (other / 8) 0 = bytes.getD (other / 8) 0 := by
      unfold setBit
      rw [List.getD_eq_getElem?_getD, List.getD_eq_getElem?_getD, List.getElem?_modify]
      simp only [if_neg (Ne.symm hbyte), Functor.map, Option.map_id']
    rw [hget]
    constructor
    · exact Or.inr
    · rintro (rfl | hbit)
      · exact absurd rfl hbyte
      · exact hbit

theorem not_hasBit_replicate (length bit : ℕ) : ¬ hasBit (List.replicate length 0) bit := by
  rw [hasBit_iff]
  have hzero : (List.replicate length (0 : UInt8)).getD (bit / 8) 0 = 0 := by
    rw [List.getD_eq_getElem?_getD, List.getElem?_replicate]
    split_ifs <;> rfl
  rw [hzero]
  simp

theorem ext_hasBit (first second : List UInt8) (hlength : first.length = second.length)
    (h : ∀ bit, hasBit first bit ↔ hasBit second bit) : first = second := by
  refine List.ext_getElem hlength ?_
  intro index hfirst hsecond
  refine UInt8.toNat_inj.mp (Nat.eq_of_testBit_eq ?_)
  intro place
  by_cases hplace : place < 8
  · have hbit := h (8 * index + place)
    rw [hasBit_iff, hasBit_iff, show (8 * index + place) / 8 = index by omega,
      show (8 * index + place) % 8 = place by omega, List.getD_eq_getElem _ _ hfirst,
      List.getD_eq_getElem _ _ hsecond] at hbit
    exact Bool.eq_iff_iff.mpr hbit
  · -- a byte has no higher bits
    have hhigh : ∀ byte : UInt8, byte.toNat.testBit place = false := fun byte =>
      Nat.testBit_lt_two_pow (lt_of_lt_of_le byte.toNat_lt (Nat.pow_le_pow_right (by decide) (by omega)))
    rw [hhigh, hhigh]

end Bitmap
