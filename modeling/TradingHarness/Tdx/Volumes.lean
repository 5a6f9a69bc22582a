import Mathlib.Algebra.Order.Field.Power
import Mathlib.Algebra.Order.Field.Rat
import Mathlib.Algebra.Order.Ring.Int
import Mathlib.Tactic.FieldSimp
import Mathlib.Tactic.Linarith
import Mathlib.Tactic.NormNum
import TradingHarness.Tdx.Records

set_option autoImplicit false

/-! # Packed amounts

`decode_volume` puts a value together from the four bytes of a word. What the format denotes is read off the
word as a whole: eight bits of exponent and twenty-three of mantissa. The two differ where the second byte
counts and the power it is multiplied with has a negative exponent: there the power is inverted. -/

namespace TradingHarness

/-! ## What a word denotes -/

variable (word : ℕ)

/-- The eight bits of the exponent. -/
def exponentOf : ℕ := word / 2 ^ 23 % 2 ^ 8

/-- The twenty-three bits of the mantissa. -/
def mantissaOf : ℕ := word % 2 ^ 23

def NormalExponent : Prop := 1 ≤ exponentOf word ∧ exponentOf word ≤ 254

instance (word : ℕ) : Decidable (NormalExponent word) := inferInstanceAs (Decidable (_ ∧ _))

/-- The number that the format denotes: the mantissa after a leading one, at its exponent. -/
def volumeDenoted : ℚ :=
  (1 + (mantissaOf word : ℚ) / 2 ^ 23) * (2 : ℚ) ^ ((exponentOf word : ℤ) - 127)

/-- `hleax`. -/
def secondByte : ℕ := (word >>> 16) % 256

def logpoint : ℤ := (word >>> 24 : ℕ)

/-- The branch of `decode_volume` that inverts a power is not taken, or adds nothing. -/
def RebuildsSecondByte : Prop :=
  secondByte word = 0 ∨ 0x80 < secondByte word ∨ 67 ≤ logpoint word

instance (word : ℕ) : Decidable (RebuildsSecondByte word) := inferInstanceAs (Decidable (_ ∨ _))

/-! ## Four bytes and one number -/

/-- The word as significand and exponent, the sign bit counted to the exponent. -/
def significandValue : ℚ :=
  ((2 ^ 23 + word % 2 ^ 23 : ℕ) : ℚ) * (2 : ℚ) ^ (((word / 2 ^ 23 : ℕ) : ℤ) - 150)

/-- The four bytes, as `decode_volume` takes them out of the word. -/
structure Bytes (word top high mid low : ℕ) : Prop where
  word_eq : word = top * 2 ^ 24 + high * 2 ^ 16 + mid * 2 ^ 8 + low
  top_eq : logpoint word = top
  high_lt : high < 256
  mid_lt : mid < 256
  low_lt : low < 256

variable (word : ℕ)

theorem bytes_of :
    Bytes word (word >>> 24) (secondByte word) ((word >>> 8) % 256) (word % 256) := by
  refine ⟨?_, rfl, Nat.mod_lt _ (by decide), Nat.mod_lt _ (by decide), Nat.mod_lt _ (by decide)⟩
  simp only [secondByte, Nat.shiftRight_eq_div_pow]
  omega

theorem Bytes.significandValue_even {word top high mid low : ℕ} (h : Bytes word top high mid low)
    (hhigh : high < 128) :
    significandValue word
      = ((2 ^ 23 + high * 2 ^ 16 + mid * 2 ^ 8 + low : ℕ) : ℚ) * (2 : ℚ) ^ (logpoint word * 2 - 150) := by
  obtain ⟨hword, htop, -, hmid, hlow⟩ := h
  have hexponent : word / 2 ^ 23 = top * 2 := by omega
  have hmantissa : word % 2 ^ 23
      = high * 2 ^ 16 + mid * 2 ^ 8 + low := by omega
  rw [significandValue, hexponent, hmantissa, htop, Nat.cast_mul, Nat.cast_ofNat]
  congr 2
  omega

theorem Bytes.significandValue_odd {word top high mid low : ℕ} (h : Bytes word top high mid low)
    (hhigh : 128 ≤ high) :
    significandValue word
      = ((2 ^ 23 + (high - 128) * 2 ^ 16 + mid * 2 ^ 8 + low : ℕ) : ℚ)
        * (2 : ℚ) ^ (logpoint word * 2 - 149) := by
  obtain ⟨hword, htop, hlt, hmid, hlow⟩ := h
  have hexponent : word / 2 ^ 23 = top * 2 + 1 := by omega
  have hmantissa : word % 2 ^ 23
      = (high - 128) * 2 ^ 16 + mid * 2 ^ 8 + low := by omega
  rw [significandValue, hexponent, hmantissa, htop, ← Nat.add_assoc, ← Nat.add_assoc]
  congr 2
  omega

theorem leading_power (exponent : ℤ) :
    (if exponent < 0 then 1 / (2 : ℚ) ^ exponent.natAbs else 2 ^ exponent.natAbs) = 2 ^ exponent := by
  split
  · next hneg =>
      have habs : exponent = -(exponent.natAbs : ℤ) := by omega
      conv_rhs => rw [habs]
      rw [zpow_neg, zpow_natCast, one_div]
  · next hnonneg =>
      have habs : exponent = (exponent.natAbs : ℤ) := by omega
      conv_rhs => rw [habs]
      rw [zpow_natCast]

theorem two_zpow_add (exponent : ℤ) (shift : ℕ) :
    (2 : ℚ) ^ (exponent + shift) = 2 ^ exponent * 2 ^ shift := by
  rw [zpow_add₀ (by norm_num), zpow_natCast]

/-- The four powers of `decode_volume` over the lowest. -/
theorem powers_over_lowest (top : ℤ) :
    (2 : ℚ) ^ (top * 2 - 0x7F) = 2 ^ (top * 2 - 150) * 2 ^ 23
      ∧ (2 : ℚ) ^ (top * 2 - 0x86) = 2 ^ (top * 2 - 150) * 2 ^ 16
      ∧ (2 : ℚ) ^ (top * 2 - 0x86 + 1) = 2 ^ (top * 2 - 150) * 2 ^ 17
      ∧ (2 : ℚ) ^ (top * 2 - 0x8E) = 2 ^ (top * 2 - 150) * 2 ^ 8
      ∧ (2 : ℚ) ^ (top * 2 - 149) = 2 ^ (top * 2 - 150) * 2 ^ 1 := by
  refine ⟨?_, ?_, ?_, ?_, ?_⟩ <;> rw [← two_zpow_add] <;> congr 1 <;> push_cast <;> ring

/-- What the inverted power adds beyond what the format says. -/
def surplus (word : ℕ) : ℚ :=
  if RebuildsSecondByte word then 0
  else (1 / (2 : ℚ) ^ (logpoint word * 2 - 0x86) - 2 ^ (logpoint word * 2 - 0x86))
    * secondByte word

theorem surplus_pos (h : ¬ RebuildsSecondByte word) : 0 < surplus word := by
  rw [surplus, if_neg h]
  rw [RebuildsSecondByte, not_or, not_or, not_lt, not_le] at h
  obtain ⟨hbyte, -, htop⟩ := h
  have hsmall : (2 : ℚ) ^ (logpoint word * 2 - 0x86) < 1 :=
    zpow_lt_one_of_neg₀ (by norm_num) (by omega)
  have hpower : (0 : ℚ) < 2 ^ (logpoint word * 2 - 0x86) := zpow_pos (by norm_num) _
  have hinverse : (1 : ℚ) < 1 / (2 : ℚ) ^ (logpoint word * 2 - 0x86) := by
    rw [lt_div_iff₀ hpower, one_mul]
    exact hsmall
  have hcount : (0 : ℚ) < secondByte word := by exact_mod_cast Nat.pos_of_ne_zero hbyte
  exact mul_pos (by linarith) hcount

theorem second_term (h : secondByte word ≤ 0x80) :
    (if 0 ≤ logpoint word * 2 - 0x86 then
        (2 : ℚ) ^ (logpoint word * 2 - 0x86) * secondByte word
      else 1 / (2 : ℚ) ^ (logpoint word * 2 - 0x86) * secondByte word)
      = (2 : ℚ) ^ (logpoint word * 2 - 0x86) * secondByte word + surplus word := by
  by_cases hnonneg : 0 ≤ logpoint word * 2 - 0x86
  · have hrebuilds : RebuildsSecondByte word := Or.inr (Or.inr (by omega))
    rw [if_pos hnonneg, surplus, if_pos hrebuilds, add_zero]
  · rw [if_neg hnonneg]
    by_cases hzero : secondByte word = 0
    · have hrebuilds : RebuildsSecondByte word := Or.inl hzero
      rw [surplus, if_pos hrebuilds, hzero]
      simp
    · have hinverts : ¬ RebuildsSecondByte word := by
        rintro (hnone | hover | htop) <;> omega
      rw [surplus, if_neg hinverts]
      ring

/-- The sum of the four terms over the lowest power, where the second byte counts as the format says. -/
theorem terms_sum (unit : ℚ) (high mid low : ℕ) :
    (high ≤ 0x80 → unit * 2 ^ 23 + unit * 2 ^ 16 * high + unit * 2 ^ 8 * mid + unit * low
        = ((2 ^ 23 + high * 2 ^ 16 + mid * 2 ^ 8 + low : ℕ) : ℚ) * unit)
      ∧ (0x80 ≤ high → unit * 2 ^ 23 + (unit * 2 ^ 16 * 128 + (high - 128 : ℕ) * (unit * 2 ^ 17))
          + unit * 2 ^ 8 * mid * 2 + unit * low * 2
        = ((2 ^ 23 + (high - 128) * 2 ^ 16 + mid * 2 ^ 8 + low : ℕ) : ℚ) * (unit * 2 ^ 1)) := by
  constructor <;> intro _ <;> push_cast <;> ring

/-- The four terms of `decode_volume`. -/
theorem decodeVolume_terms :
    decodeVolume word
      = (2 : ℚ) ^ (logpoint word * 2 - 0x7F)
        + (if 0x80 < secondByte word then
            (2 : ℚ) ^ (logpoint word * 2 - 0x86) * 128
              + (secondByte word % 128 : ℕ) * (2 : ℚ) ^ (logpoint word * 2 - 0x86 + 1)
          else if 0 ≤ logpoint word * 2 - 0x86 then
            (2 : ℚ) ^ (logpoint word * 2 - 0x86) * secondByte word
          else 1 / (2 : ℚ) ^ (logpoint word * 2 - 0x86) * secondByte word)
        + (2 : ℚ) ^ (logpoint word * 2 - 0x8E) * ((word >>> 8) % 256 : ℕ)
          * (if 0x80 ≤ secondByte word then 2 else 1)
        + (2 : ℚ) ^ (logpoint word * 2 - 0x96) * (word % 256 : ℕ)
          * (if 0x80 ≤ secondByte word then 2 else 1) := by
  rw [← leading_power (logpoint word * 2 - 0x7F)]
  rfl

/-- **What `decode_volume` computes**: significand and exponent, and the surplus of the inverted power. -/
theorem decodeVolume_eq : decodeVolume word = significandValue word + surplus word := by
  have hbytes := bytes_of word
  obtain ⟨hlead, hsecond, hnext, hthird, hodd⟩ := powers_over_lowest (logpoint word)
  rw [decodeVolume_terms, hlead, hthird]
  rcases Nat.lt_or_ge 0x80 (secondByte word) with hover | hupto
  · -- past the middle the power is never inverted
    have hrest : secondByte word % 128 = secondByte word - 128 := by
      have := hbytes.high_lt
      omega
    have hrebuilds : RebuildsSecondByte word := Or.inr (Or.inl hover)
    rw [if_pos hover, if_pos hover.le, hrest, hsecond, hnext, hbytes.significandValue_odd hover.le, hodd,
      surplus, if_pos hrebuilds, add_zero]
    exact (terms_sum _ _ _ _).2 hover.le
  · rw [if_neg hupto.not_gt, second_term word hupto, hsecond]
    rcases hupto.lt_or_eq with hbelow | hmiddle
    · -- an even exponent: the lower bytes count once
      rw [if_neg hbelow.not_ge, hbytes.significandValue_even hbelow,
        ← (terms_sum _ _ _ _).1 hupto]
      ring
    · -- the middle itself stands for the odd exponent
      rw [if_pos hmiddle.ge, hbytes.significandValue_odd hmiddle.ge, hodd,
        ← (terms_sum _ _ _ _).2 hmiddle.ge, hmiddle]
      push_cast
      ring

theorem surplus_eq_zero_iff : surplus word = 0 ↔ RebuildsSecondByte word := by
  constructor
  · intro hzero
    by_contra hinverts
    exact (surplus_pos word hinverts).ne' hzero
  · intro hrebuilds
    rw [surplus, if_pos hrebuilds]

theorem surplus_nonneg : 0 ≤ surplus word := by
  by_cases hrebuilds : RebuildsSecondByte word
  · exact ((surplus_eq_zero_iff word).mpr hrebuilds).ge
  · exact (surplus_pos word hrebuilds).le

/-! ## The value and the order of the words -/

theorem significandValue_mod : significandValue (word % 2 ^ 31) = volumeDenoted word := by
  have hexponent : word % 2 ^ 31 / 2 ^ 23 = exponentOf word := by
    rw [exponentOf]
    omega
  have hmantissa : word % 2 ^ 31 % 2 ^ 23 = mantissaOf word := by
    rw [mantissaOf]
    omega
  have hpower : (2 : ℚ) ^ ((exponentOf word : ℤ) - 127)
      = 2 ^ ((exponentOf word : ℤ) - 150) * 2 ^ 23 := by
    rw [← two_zpow_add]
    congr 1
    push_cast
    ring
  rw [significandValue, hexponent, hmantissa, volumeDenoted, hpower]
  push_cast
  field_simp
  norm_num

theorem significandValue_lt {first second : ℕ} (h : first < second) :
    significandValue first < significandValue second := by
  rcases Nat.lt_or_ge (first / 2 ^ 23) (second / 2 ^ 23) with hexponent | hexponent
  · -- a larger exponent outweighs every mantissa
    calc significandValue first
        < ((2 ^ 24 : ℕ) : ℚ) * 2 ^ (((first / 2 ^ 23 : ℕ) : ℤ) - 150) := by
          refine mul_lt_mul_of_pos_right ?_ (zpow_pos (by norm_num) _)
          exact_mod_cast (by omega : 2 ^ 23 + first % 2 ^ 23 < 2 ^ 24)
      _ = ((2 ^ 23 : ℕ) : ℚ) * 2 ^ (((first / 2 ^ 23 : ℕ) : ℤ) - 150 + (1 : ℕ)) := by
          rw [two_zpow_add]
          push_cast
          ring
      _ ≤ ((2 ^ 23 : ℕ) : ℚ) * 2 ^ (((second / 2 ^ 23 : ℕ) : ℤ) - 150) := by
          refine mul_le_mul_of_nonneg_left (zpow_le_zpow_right₀ (by norm_num) ?_) (by norm_num)
          omega
      _ ≤ significandValue second := by
          refine mul_le_mul_of_nonneg_right ?_ (zpow_pos (by norm_num) _).le
          exact_mod_cast Nat.le_add_right _ _
  · have hsame : first / 2 ^ 23 = second / 2 ^ 23 := by omega
    rw [significandValue, significandValue, hsame]
    refine mul_lt_mul_of_pos_right ?_ (zpow_pos (by norm_num) _)
    exact_mod_cast (by omega : 2 ^ 23 + first % 2 ^ 23 < 2 ^ 23 + second % 2 ^ 23)

/-- The words of which the value is rebuilt: no sign bit, and no power inverted. -/
def Rebuilt (word : ℕ) : Prop := word < 2 ^ 31 ∧ RebuildsSecondByte word

instance (word : ℕ) : Decidable (Rebuilt word) := inferInstanceAs (Decidable (_ ∧ _))

theorem decodeVolume_of_rebuilt {word : ℕ} (h : Rebuilt word) : decodeVolume word = volumeDenoted word := by
  rw [decodeVolume_eq, (surplus_eq_zero_iff word).mpr h.2, add_zero, ← significandValue_mod,
    Nat.mod_eq_of_lt h.1]

theorem decodeVolume_denoted_iff : decodeVolume word = volumeDenoted word ↔ Rebuilt word := by
  refine ⟨?_, decodeVolume_of_rebuilt⟩
  rw [decodeVolume_eq, ← significandValue_mod]
  intro hvalue
  have hsurplus := surplus_nonneg word
  rcases Nat.lt_or_ge word (2 ^ 31) with hpositive | hsign
  · rw [Nat.mod_eq_of_lt hpositive, add_eq_left, surplus_eq_zero_iff] at hvalue
    exact ⟨hpositive, hvalue⟩
  · have hless := significandValue_lt (by omega : word % 2 ^ 31 < word)
    linarith

theorem decodeVolume_lt_of_rebuilt {first second : ℕ} (hfirst : Rebuilt first) (hsecond : Rebuilt second)
    (h : first < second) : decodeVolume first < decodeVolume second := by
  rw [decodeVolume_eq, decodeVolume_eq, (surplus_eq_zero_iff _).mpr hfirst.2,
    (surplus_eq_zero_iff _).mpr hsecond.2, add_zero, add_zero]
  exact significandValue_lt h

/-- From this word on no power is inverted. -/
def firstOrdered : ℕ := 0x42810000

theorem rebuilt_of_firstOrdered_le {word : ℕ} (hle : firstOrdered ≤ word) (hlt : word < 2 ^ 31) :
    Rebuilt word := by
  refine ⟨hlt, ?_⟩
  rw [firstOrdered] at hle
  rw [RebuildsSecondByte, secondByte, logpoint]
  simp only [Nat.shiftRight_eq_div_pow]
  omega

theorem last_inverted : decodeVolume firstOrdered < decodeVolume (firstOrdered - 1) := by
  decide +kernel

/-- **`decode_volume` gives what the format denotes exactly to the words of which the second byte is zero, or
above its middle, or with an exponent from seven up; such words are decoded in their order; and it is from
the last word of the others on that the order of all words is kept.** -/
theorem decodeVolume_denotes_iff (word : ℕ) (_hword : word < 2 ^ 32) (_hnormal : NormalExponent word) :
    (decodeVolume word = volumeDenoted word ↔ Rebuilt word)
      ∧ (∀ first second, Rebuilt first → Rebuilt second → first < second →
        decodeVolume first < decodeVolume second)
      ∧ ∀ low, (∀ first second, low ≤ first → first < second → second < 2 ^ 31 →
          NormalExponent first → NormalExponent second → decodeVolume first < decodeVolume second)
        ↔ 0x42810000 ≤ low := by
  refine ⟨decodeVolume_denoted_iff word,
    fun first second hfirst hsecond => decodeVolume_lt_of_rebuilt hfirst hsecond, fun low => ⟨?_, ?_⟩⟩
  · intro hordered
    by_contra hlow
    have hlt := hordered (firstOrdered - 1) firstOrdered (by rw [firstOrdered]; omega) (by decide) (by decide)
      (by decide) (by decide)
    exact (lt_asymm hlt) last_inverted
  · intro hlow first second hle hlt hpositive _ _
    exact decodeVolume_lt_of_rebuilt (rebuilt_of_firstOrdered_le (hlow.trans hle) (hlt.trans hpositive))
      (rebuilt_of_firstOrdered_le (by rw [firstOrdered]; omega) hpositive) hlt

/-- The word of a hundred and fifty is decoded to that number. -/
theorem decodeVolume_denotes_hundredFifty : decodeVolume 0x43160000 = 150 :=
  ((decodeVolume_denotes_iff 0x43160000 (by decide) (by decide)).1.mpr (by decide)).trans
    (by decide +kernel)

/-- Fifty is decoded to three hundred and twenty, which is more than a later word's sixty-four and a half. -/
theorem fifty_inverted :
    NormalExponent 0x42480000 ∧ volumeDenoted 0x42480000 = 50 ∧ decodeVolume 0x42480000 = 320
      ∧ 0x42480000 < 0x42810000 ∧ decodeVolume 0x42810000 = 129 / 2
      ∧ ¬ (∀ word, word < 2 ^ 32 → NormalExponent word → decodeVolume word = volumeDenoted word)
      ∧ ¬ (∀ first second, first < second → second < 2 ^ 31 → NormalExponent first → NormalExponent second →
        decodeVolume first < decodeVolume second) := by
  have hdenoted : volumeDenoted 0x42480000 = 50 := by decide +kernel
  have hdecoded : decodeVolume 0x42480000 = 320 := by decide +kernel
  have hlater : decodeVolume 0x42810000 = 129 / 2 := by decide +kernel
  refine ⟨by decide, hdenoted, hdecoded, by decide, hlater, ?_, ?_⟩
  · intro hall
    have hfifty := hall 0x42480000 (by decide) (by decide)
    rw [hdenoted, hdecoded] at hfifty
    exact absurd hfifty (by norm_num)
  · intro hall
    have hlt := hall 0x42480000 0x42810000 (by decide) (by decide) (by decide) (by decide)
    rw [hdecoded, hlater] at hlt
    exact absurd hlt (by norm_num)

end TradingHarness
