import LiveDocuments.Json.Number
import Mathlib.Algebra.Order.Group.Int
import Mathlib.Data.Nat.Log

/-!
# Integers and their nearest doubles

Two numbers compare as their nearest doubles do. Rounding to 53 bits keeps what has a
smaller binary logarithm below (`le_roundTo53Bits`, `roundTo53Bits_le`), and between numbers
of one logarithm it is rounding to multiples of one power of two, so it is monotone
(`Number.roundInteger_mono`). What lies within 53 bits is not moved, and is not reached by
what lies beyond (`Number.eq_of_roundInteger_eq`).
-/

namespace LiveDocuments

theorem twoTo_add (m n : Nat) : twoTo (m + n) = twoTo m * twoTo n := Nat.pow_add 2 m n

theorem twoTo_le_twoTo {m n : Nat} (h : m ≤ n) : twoTo m ≤ twoTo n :=
  Nat.pow_le_pow_right Nat.two_pos h

/-! ## Rounding to a whole number -/

theorem div_le_roundQuotient (num den : Nat) : num / den ≤ roundQuotient num den := by
  simp only [roundQuotient]
  split_ifs <;> omega

theorem roundQuotient_le_div_succ (num den : Nat) : roundQuotient num den ≤ num / den + 1 := by
  simp only [roundQuotient]
  split_ifs <;> omega

theorem roundQuotient_mono {a b den : Nat} (h : a ≤ b) :
    roundQuotient a den ≤ roundQuotient b den := by
  rcases (Nat.div_le_div_right h).lt_or_eq with hlt | heq
  · calc roundQuotient a den
        ≤ a / den + 1 := roundQuotient_le_div_succ a den
      _ ≤ b / den := hlt
      _ ≤ roundQuotient b den := div_le_roundQuotient b den
  · -- with one quotient the remainders are in the order of the numbers
    have hrest : a % den ≤ b % den := by
      have ha := Nat.div_add_mod a den
      have hb := Nat.div_add_mod b den
      rw [heq] at ha
      omega
    simp only [roundQuotient, heq]
    split_ifs <;> omega

/-! ## Rounding to 53 bits -/

theorem le_roundTo53Bits {n : Nat} (h : n ≠ 0) : twoTo n.log2 ≤ roundTo53Bits n := by
  have hle : twoTo n.log2 ≤ n := Nat.log2_self_le h
  rcases Nat.lt_or_ge n.log2 52 with hsmall | hlarge
  · have hlt : n < twoTo 53 := (Nat.log2_lt h).mp (Nat.lt_succ_of_lt hsmall)
    rwa [roundTo53Bits_of_lt n hlt]
  · have hsplit : twoTo n.log2 = twoTo 52 * twoTo (n.log2 - 52) := by
      rw [← twoTo_add, Nat.add_sub_cancel' hlarge]
    rw [hsplit] at hle ⊢
    refine Nat.mul_le_mul_right _ ?_
    calc twoTo 52
        = roundQuotient (twoTo 52 * twoTo (n.log2 - 52)) (twoTo (n.log2 - 52)) :=
          (roundQuotient_mul _ _ (twoTo_pos _)).symm
      _ ≤ roundQuotient n (twoTo (n.log2 - 52)) := roundQuotient_mono hle

theorem roundTo53Bits_le (n : Nat) : roundTo53Bits n ≤ twoTo (n.log2 + 1) := by
  have hle : n ≤ twoTo (n.log2 + 1) := Nat.lt_log2_self.le
  rcases Nat.lt_or_ge n.log2 52 with hsmall | hlarge
  · have hlt : n < twoTo 53 := Nat.lt_of_lt_of_le Nat.lt_log2_self (twoTo_le_twoTo (by omega))
    rwa [roundTo53Bits_of_lt n hlt]
  · have hsplit : twoTo (n.log2 + 1) = twoTo 53 * twoTo (n.log2 - 52) := by
      rw [← twoTo_add]
      congr 1
      omega
    rw [hsplit] at hle ⊢
    refine Nat.mul_le_mul_right _ ?_
    calc roundQuotient n (twoTo (n.log2 - 52))
        ≤ roundQuotient (twoTo 53 * twoTo (n.log2 - 52)) (twoTo (n.log2 - 52)) :=
          roundQuotient_mono hle
      _ = twoTo 53 := roundQuotient_mul _ _ (twoTo_pos _)

theorem roundTo53Bits_mono {a b : Nat} (h : a ≤ b) : roundTo53Bits a ≤ roundTo53Bits b := by
  by_cases hb : b = 0
  · subst hb
    rw [Nat.le_zero.mp h]
  have hlog : a.log2 ≤ b.log2 := by
    rw [Nat.log2_eq_log_two, Nat.log2_eq_log_two]
    exact Nat.log_mono_right h
  rcases hlog.lt_or_eq with hlt | heq
  · calc roundTo53Bits a
        ≤ twoTo (a.log2 + 1) := roundTo53Bits_le a
      _ ≤ twoTo b.log2 := twoTo_le_twoTo hlt
      _ ≤ roundTo53Bits b := le_roundTo53Bits hb
  · rw [roundTo53Bits, roundTo53Bits, heq]
    exact Nat.mul_le_mul_right _ (roundQuotient_mono h)

namespace Number

/-! ## Rounding integers -/

theorem roundInteger_of_natAbs_lt {n : Int} (h : n.natAbs < twoTo 53) : roundInteger n = n := by
  rw [roundInteger, roundTo53Bits_of_lt _ h]
  split <;> omega

theorem roundInteger_mono {a b : Int} (h : a ≤ b) : roundInteger a ≤ roundInteger b := by
  unfold roundInteger
  split_ifs with ha hb hb
  · have hle : roundTo53Bits b.natAbs ≤ roundTo53Bits a.natAbs := roundTo53Bits_mono (by omega)
    omega
  · omega
  · omega
  · have hle : roundTo53Bits a.natAbs ≤ roundTo53Bits b.natAbs := roundTo53Bits_mono (by omega)
    omega

theorem le_natAbs_roundInteger {n : Int} (h : twoTo 53 ≤ n.natAbs) :
    twoTo 53 ≤ (roundInteger n).natAbs := by
  have hle : roundTo53Bits (twoTo 53) ≤ roundTo53Bits n.natAbs := roundTo53Bits_mono h
  have hpower : roundTo53Bits (twoTo 53) = twoTo 53 := by decide +kernel
  rw [hpower] at hle
  unfold roundInteger
  split_ifs <;> omega

theorem eq_of_roundInteger_eq {a b : Int} (h : a.natAbs < twoTo 53 ∨ b.natAbs < twoTo 53)
    (heq : roundInteger a = roundInteger b) : a = b := by
  have hboth : a.natAbs < twoTo 53 ∧ b.natAbs < twoTo 53 := by
    rcases h with ha | hb
    · refine ⟨ha, Nat.lt_of_not_le fun hb => ?_⟩
      have hle := le_natAbs_roundInteger hb
      rw [← heq, roundInteger_of_natAbs_lt ha] at hle
      omega
    · refine ⟨Nat.lt_of_not_le fun ha => ?_, hb⟩
      have hle := le_natAbs_roundInteger ha
      rw [heq, roundInteger_of_natAbs_lt hb] at hle
      omega
  rwa [roundInteger_of_natAbs_lt hboth.1, roundInteger_of_natAbs_lt hboth.2] at heq

/-! ## Comparing integers -/

theorem units_lt_units_iff {a b : Int} :
    (integer a).units < (integer b).units ↔ roundInteger a < roundInteger b :=
  Int.mul_lt_mul_right (Int.natCast_pos.mpr (twoTo_pos 1074))

theorem units_eq_units_iff {a b : Int} :
    (integer a).units = (integer b).units ↔ roundInteger a = roundInteger b :=
  Int.mul_eq_mul_right_iff (Int.natCast_pos.mpr (twoTo_pos 1074)).ne'

theorem compare_units_integer (a b : Int) :
    compare (integer a).units (integer b).units = compare (roundInteger a) (roundInteger b) := by
  rcases lt_trichotomy (roundInteger a) (roundInteger b) with hlt | heq | hgt
  · rw [compare_lt_iff_lt.mpr hlt, compare_lt_iff_lt.mpr (units_lt_units_iff.mpr hlt)]
  · rw [compare_eq_iff_eq.mpr heq, compare_eq_iff_eq.mpr (units_eq_units_iff.mpr heq)]
  · rw [compare_gt_iff_gt.mpr hgt, compare_gt_iff_gt.mpr (units_lt_units_iff.mpr hgt)]

end Number

end LiveDocuments
