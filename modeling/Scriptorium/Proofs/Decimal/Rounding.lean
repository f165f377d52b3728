import Mathlib.Algebra.Order.Field.Power
import Mathlib.Algebra.Order.Field.Rat
import Mathlib.Data.Rat.Cast.Order
import Mathlib.Tactic.FieldSimp
import Mathlib.Tactic.Linarith
import Mathlib.Tactic.NormNum
import Mathlib.Tactic.Positivity
import Mathlib.Tactic.Ring
import Scriptorium.Decimal.Shortest

/-!
# Rounding

The reals that round to a float are an interval around it. The arithmetic of floats computes with a mantissa and
two bits that stand for all that was shifted out of it (`Approximates`); its result is the float whose interval
has the exact value (`roundWithAccuracy_eq`), and there is only one such float (`Binary.Takes.unique`).
-/

namespace Scriptorium.Decimal

open Float.Model Float.Model.UnpackedFloat

/-! ## Intervals -/

/-- A power with an exponent of either sign as a quotient of natural powers. -/
theorem zpow_eq_div (a : ℚ) (e : ℤ) : a ^ e = a ^ e.toNat / a ^ (-e).toNat := by
  rcases le_total 0 e with he | he
  · rw [Int.toNat_of_nonpos (neg_nonpos.2 he), pow_zero, div_one, ← zpow_natCast, Int.toNat_of_nonneg he]
  · rw [Int.toNat_of_nonpos he, pow_zero, one_div, ← zpow_natCast, Int.toNat_of_nonneg (neg_nonneg.2 he),
      zpow_neg, inv_inv]

namespace Binary

variable {b b' : Binary} {v : ℚ}

/-- The exact value. -/
def value (b : Binary) : ℚ := b.mantissa * 2 ^ b.exponent

theorem den_pos (b : Binary) : 0 < b.quotient.2 := Nat.two_pow_pos _

theorem value_eq_quotient (b : Binary) : b.value = b.quotient.1 / b.quotient.2 := by
  show (b.mantissa : ℚ) * 2 ^ b.exponent =
    (b.mantissa * 2 ^ b.exponent.toNat : ℕ) / (2 ^ (-b.exponent).toNat : ℕ)
  rw [zpow_eq_div, ← mul_div_assoc]
  push_cast
  rfl

/-- A positive float, were there no greatest exponent: the mantissa has 53 bits unless the exponent is the
least. -/
structure Canonical (b : Binary) : Prop where
  pos : 0 < b.mantissa
  lt : b.mantissa < 2 ^ 53
  le_exponent : -1074 ≤ b.exponent
  full : 2 ^ 52 ≤ b.mantissa ∨ b.exponent = -1074

/-- A value rounds to the float: it lies within the interval, and at an end only if the mantissa is even. -/
structure Takes (b : Binary) (v : ℚ) : Prop where
  low : b.interval.1 * 2 ^ b.exponent ≤ 4 * v
  high : 4 * v ≤ b.interval.2 * 2 ^ b.exponent
  even : 4 * v = b.interval.1 * 2 ^ b.exponent ∨ 4 * v = b.interval.2 * 2 ^ b.exponent → b.mantissa % 2 = 0

end Binary

/-! ## Mantissas with two more bits -/

/-- A mantissa with its round and sticky bits stands for a number: half units are exact, and the sticky bit says
whether something is left. -/
structure Approximates (em : ExtendedMantissa) (x : ℚ) : Prop where
  low : 2 * em.mantissa + em.roundBit.toNat ≤ 2 * x
  high : 2 * x < 2 * em.mantissa + em.roundBit.toNat + 1
  sticky : em.stickyBit = false ↔ 2 * x = 2 * em.mantissa + em.roundBit.toNat

/-- The number to the nearest natural, a tie going to the even one. -/
structure IsNearest (n : ℕ) (x : ℚ) : Prop where
  low : 2 * n - 1 ≤ 2 * x
  high : 2 * x ≤ 2 * n + 1
  even : 2 * x = 2 * n - 1 ∨ 2 * x = 2 * n + 1 → n % 2 = 0

theorem isNearest_of_lt {n : ℕ} {x : ℚ} (low : 2 * n - 1 < 2 * x) (high : 2 * x < 2 * n + 1) :
    IsNearest n x where
  low := low.le
  high := high.le
  even h := by rcases h with h | h <;> linarith

theorem isNearest_of_tie {n : ℕ} {x : ℚ} (h : 2 * x = 2 * n + 1) : IsNearest (n + n % 2) x := by
  rcases Nat.mod_two_eq_zero_or_one n with hn | hn
  · rw [hn, add_zero]
    exact ⟨by linarith, h.le, fun _ => hn⟩
  · rw [hn]
    exact ⟨by push_cast; linarith, by push_cast; linarith, fun _ => by omega⟩

theorem Approximates.isNearest {em : ExtendedMantissa} {x : ℚ} (h : Approximates em x) :
    IsNearest em.roundedMantissa x := by
  obtain ⟨n, round, sticky⟩ := em
  obtain ⟨low, high, hsticky⟩ := h
  cases round <;> cases sticky <;>
    simp only [Bool.toNat_false, Bool.toNat_true, Nat.cast_zero, Nat.cast_one, add_zero, true_iff,
      Bool.true_eq_false, false_iff] at low high hsticky
  · exact isNearest_of_lt (n := n) (by linarith) (by linarith)
  · exact isNearest_of_lt (n := n) (by linarith) (by linarith)
  · exact isNearest_of_tie hsticky
  · have hlt : 2 * (n : ℚ) + 1 < 2 * x := lt_of_le_of_ne low (Ne.symm hsticky)
    refine isNearest_of_lt (n := n + 1) ?_ ?_ <;> push_cast <;> linarith

theorem approximates_exact (m : ℕ) : Approximates (.ofMantissaAndAccuracy m .exact) m where
  low := by simp [ExtendedMantissa.ofMantissaAndAccuracy]
  high := by simp [ExtendedMantissa.ofMantissaAndAccuracy]
  sticky := by simp [ExtendedMantissa.ofMantissaAndAccuracy]

theorem approximates_below {m : ℕ} {x : ℚ} (low : 2 * m < 2 * x) (high : 2 * x < 2 * m + 1) :
    Approximates (.ofMantissaAndAccuracy m (.inexact .lt)) x where
  low := by simpa [ExtendedMantissa.ofMantissaAndAccuracy] using low.le
  high := by simpa [ExtendedMantissa.ofMantissaAndAccuracy] using high
  sticky := by simpa [ExtendedMantissa.ofMantissaAndAccuracy] using low.ne'

theorem approximates_half {m : ℕ} {x : ℚ} (h : 2 * x = 2 * m + 1) :
    Approximates (.ofMantissaAndAccuracy m (.inexact .eq)) x where
  low := by simpa [ExtendedMantissa.ofMantissaAndAccuracy] using h.ge
  high := by simpa [ExtendedMantissa.ofMantissaAndAccuracy] using lt_add_of_le_of_pos h.le one_pos
  sticky := by simpa [ExtendedMantissa.ofMantissaAndAccuracy] using h

theorem approximates_above {m : ℕ} {x : ℚ} (low : 2 * m + 1 < 2 * x) (high : 2 * x < 2 * m + 2) :
    Approximates (.ofMantissaAndAccuracy m (.inexact .gt)) x where
  low := by simpa [ExtendedMantissa.ofMantissaAndAccuracy] using low.le
  high := by
    simp only [ExtendedMantissa.ofMantissaAndAccuracy, Bool.toNat_true, Nat.cast_one]
    linarith
  sticky := by simpa [ExtendedMantissa.ofMantissaAndAccuracy] using low.ne'

theorem approximates_fraction {num den : ℕ} (hden : 0 < den) :
    Approximates (.ofMantissaAndAccuracy (num / den) (accuracyOfFraction (num % den) den)) (num / den) := by
  have hd : (0 : ℚ) < den := by exact_mod_cast hden
  have hdiv : (num : ℚ) = den * (num / den : ℕ) + (num % den : ℕ) := by
    exact_mod_cast (Nat.div_add_mod num den).symm
  have hlt : ((num % den : ℕ) : ℚ) < den := by exact_mod_cast Nat.mod_lt num hden
  have hquotient : (num : ℚ) / den = (num / den : ℕ) + (num % den : ℕ) / den := by
    rw [hdiv, add_div, mul_div_cancel_left₀ _ hd.ne']
  generalize num / den = whole at hquotient ⊢
  generalize num % den = left at hquotient hlt ⊢
  rw [accuracyOfFraction, hquotient]
  by_cases hleft : left = 0
  · simpa [hleft] using approximates_exact whole
  · have hpos : 0 < (left : ℚ) / den := div_pos (by exact_mod_cast Nat.pos_of_ne_zero hleft) hd
    have hone : (left : ℚ) / den < 1 := (div_lt_one hd).2 hlt
    rw [if_neg hleft]
    have htwice : 2 * ((left : ℚ) / den) = (2 * left : ℕ) / den := by
      push_cast
      ring
    -- the accuracy says on which side of the half the fraction lies
    rcases Nat.lt_trichotomy (2 * left) den with h | h | h
    · have hhalf : 2 * ((left : ℚ) / den) < 1 := by
        rw [htwice, div_lt_one hd]
        exact_mod_cast h
      rw [Nat.compare_eq_lt.2 h]
      exact approximates_below (by linarith) (by linarith)
    · have hhalf : 2 * ((left : ℚ) / den) = 1 := by rw [htwice, h, div_self hd.ne']
      rw [Nat.compare_eq_eq.2 h]
      exact approximates_half (by linarith)
    · have hhalf : 1 < 2 * ((left : ℚ) / den) := by
        rw [htwice, one_lt_div hd]
        exact_mod_cast h
      rw [Nat.compare_eq_gt.2 h]
      exact approximates_above (by linarith) (by linarith)

theorem Approximates.shiftRightOne {em : ExtendedMantissa} {x : ℚ} (h : Approximates em x) :
    Approximates em.shiftRightOne (x / 2) := by
  obtain ⟨n, round, sticky⟩ := em
  obtain ⟨low, high, hsticky⟩ := h
  have hn : (n : ℚ) = 2 * (n / 2 : ℕ) + (n % 2 : ℕ) := by exact_mod_cast (Nat.div_add_mod n 2).symm
  have hbit : (n % 2 != 0).toNat = n % 2 := by
    rcases Nat.mod_two_eq_zero_or_one n with h | h <;> simp [h]
  have hround : ((round.toNat : ℕ) : ℚ) ≤ 1 := by cases round <;> simp
  have hround' : (0 : ℚ) ≤ (round.toNat : ℕ) := by positivity
  simp only at low high
  refine ⟨?_, ?_, ?_⟩
  · simp only [ExtendedMantissa.shiftRightOne, hbit]
    linarith
  · simp only [ExtendedMantissa.shiftRightOne, hbit]
    linarith
  · simp only [ExtendedMantissa.shiftRightOne, hbit]
    rw [mul_div_cancel₀ x (two_ne_zero), ← hn]
    cases round with
    | false =>
      rw [Bool.false_or, hsticky]
      constructor <;> intro h <;> simp at h ⊢ <;> linarith
    | true =>
      refine iff_of_false (by simp) fun h => ?_
      simp at low
      linarith

theorem Approximates.shiftRight {em : ExtendedMantissa} {x : ℚ} (h : Approximates em x) (k : ℕ) :
    Approximates (em >>> k) (x / 2 ^ k) := by
  induction k with
  | zero =>
    rw [pow_zero, div_one]
    exact h
  | succ k ih =>
    rw [pow_succ, ← div_div]
    exact ih.shiftRightOne

theorem Approximates.bounds {em : ExtendedMantissa} {x : ℚ} (h : Approximates em x) :
    em.mantissa ≤ x ∧ x < em.mantissa + 1 := by
  have hround : ((em.roundBit.toNat : ℕ) : ℚ) ≤ 1 := by cases em.roundBit <;> simp
  have hround' : (0 : ℚ) ≤ (em.roundBit.toNat : ℕ) := by positivity
  constructor <;> linarith [h.low, h.high]

@[simp] theorem mantissa_ofMantissaAndAccuracy (m : ℕ) (accuracy : Accuracy) :
    (ExtendedMantissa.ofMantissaAndAccuracy m accuracy).mantissa = m := by
  cases accuracy with
  | exact => rfl
  | inexact o => cases o <;> rfl

/-! ## Shifting and rounding -/

theorem targetExponent_eq (total : ℤ) : Format.binary64.targetExponent total = max (total - 53) (-1074) := rfl

theorem div_zpow_add (v : ℚ) (e : ℤ) (k : ℕ) : v / 2 ^ (e + k) = v / 2 ^ e / 2 ^ k := by
  rw [zpow_add₀ two_ne_zero, zpow_natCast, div_div]

/-- The first shift leaves a mantissa of 53 bits, or of fewer with the least exponent. -/
theorem exists_shift {m : ℕ} {e : ℤ} {accuracy : Accuracy} {v : ℚ}
    (h : Approximates (.ofMantissaAndAccuracy m accuracy) (v / 2 ^ e)) (hbits : 2 ^ 52 ≤ m ∨ e ≤ -1074) :
    ∃ em t, shiftToTargetExponent .binary64 m e accuracy = (em, t) ∧ Approximates em (v / 2 ^ t) ∧
      -1074 ≤ t ∧ (t = -1074 ∨ 2 ^ 52 ≤ v / 2 ^ t) ∧ v / 2 ^ t < 2 ^ 53 := by
  obtain ⟨k, hk⟩ : ∃ k, (max ((m.log2 : ℤ) + 1 + e - 53) (-1074) - e).toNat = k := ⟨_, rfl⟩
  have hshift : shiftToTargetExponent .binary64 m e accuracy =
      (ExtendedMantissa.ofMantissaAndAccuracy m accuracy >>> k, e + k) := by
    rw [shiftToTargetExponent, targetExponent_eq, totalExponent, shiftToExponent, hk]
  have hlog : 2 ^ 52 ≤ m → 52 ≤ m.log2 := fun hm => (Nat.le_log2 (by omega)).2 hm
  have hbounds := h.bounds
  rw [mantissa_ofMantissaAndAccuracy] at hbounds
  have hpos : (0 : ℚ) < 2 ^ k := by positivity
  refine ⟨_, _, hshift, ?_, by omega, ?_, ?_⟩
  · rw [div_zpow_add]
    exact h.shiftRight k
  · by_cases hleast : e + k = -1074
    · exact .inl hleast
    · have hm : m ≠ 0 := by
        rintro rfl
        rw [Nat.log2_zero] at hk
        omega
      have hlow : (2 : ℚ) ^ (52 + k) ≤ m := by
        rw [show 52 + k = m.log2 by omega]
        exact_mod_cast Nat.log2_self_le hm
      rw [div_zpow_add, le_div_iff₀ hpos, ← pow_add]
      exact .inr (hlow.trans hbounds.1)
  · have hhigh : (m : ℚ) + 1 ≤ 2 ^ (53 + k) := by
      have : m + 1 ≤ 2 ^ (53 + k) :=
        Nat.lt_log2_self.trans_le (Nat.pow_le_pow_right (by decide) (by omega))
      exact_mod_cast this
    rw [div_zpow_add, div_lt_iff₀ hpos, ← pow_add]
    exact hbounds.2.trans_le hhigh

theorem shift_exact {m : ℕ} {e : ℤ} (hm : m < 2 ^ 53) (he : -1074 ≤ e) :
    shiftToTargetExponent .binary64 m e .exact = (.ofMantissaAndAccuracy m .exact, e) := by
  have hlog : m.log2 ≤ 52 := by
    by_cases h : m = 0
    · rw [h, Nat.log2_zero]
      decide
    · have := (Nat.log2_lt h).2 hm
      omega
  have hk : (max ((m.log2 : ℤ) + 1 + e - 53) (-1074) - e).toNat = 0 := by omega
  rw [shiftToTargetExponent, targetExponent_eq, totalExponent, shiftToExponent, hk]
  simp only [Nat.cast_zero, add_zero]
  rfl

theorem shift_carry {e : ℤ} (he : -1074 ≤ e) :
    shiftToTargetExponent .binary64 (2 ^ 53) e .exact = (.ofMantissaAndAccuracy (2 ^ 52) .exact, e + 1) := by
  have hk : (max ((53 : ℤ) + 1 + e - 53) (-1074) - e).toNat = 1 := by omega
  rw [shiftToTargetExponent, targetExponent_eq, totalExponent, shiftToExponent, Nat.log2_two_pow,
    Nat.cast_ofNat, hk]
  rfl

namespace Binary

variable {b b' : Binary} {v x : ℚ}

theorem low_eq (hb : b.Canonical) (h : b.mantissa ≠ 2 ^ 52 ∨ b.exponent = -1074) :
    (b.interval.1 : ℚ) = 4 * b.mantissa - 2 := by
  have hpos := hb.pos
  have hle := hb.le_exponent
  have hnot : ¬ (b.mantissa = 0x10000000000000 ∧ -1074 < b.exponent) := by
    rintro ⟨hm, he⟩
    rcases h with h | h <;> omega
  rw [interval]
  simp only [if_neg hnot]
  rw [Nat.cast_sub (by omega)]
  push_cast
  ring

theorem low_eq_power (h : b.mantissa = 2 ^ 52) (he : -1074 < b.exponent) :
    (b.interval.1 : ℚ) = 4 * b.mantissa - 1 := by
  have hif : b.mantissa = 0x10000000000000 ∧ -1074 < b.exponent := ⟨h, he⟩
  rw [interval]
  simp only [if_pos hif]
  rw [Nat.cast_sub (by omega)]
  push_cast
  ring

theorem high_eq (b : Binary) : (b.interval.2 : ℚ) = 4 * b.mantissa + 2 := by
  rw [interval]
  push_cast
  ring

/-- In units of the float: an interval of the numbers nearest to the mantissa. -/
theorem takes_of_isNearest (hb : b.Canonical) (hx : v / 2 ^ b.exponent = x) (hnear : IsNearest b.mantissa x)
    (hlow : b.mantissa = 2 ^ 52 → -1074 < b.exponent → 4 * (b.mantissa : ℚ) - 1 ≤ 4 * x) : b.Takes v := by
  have hunit : (0 : ℚ) < 2 ^ b.exponent := by positivity
  obtain rfl : v = x * 2 ^ b.exponent := by rw [← hx, div_mul_cancel₀ _ hunit.ne']
  have hfour : 4 * (x * 2 ^ b.exponent) = 4 * x * 2 ^ b.exponent := by ring
  have hlow' : (b.interval.1 : ℚ) ≤ 4 * x ∧ (4 * x = b.interval.1 → b.mantissa % 2 = 0) := by
    by_cases h : b.mantissa = 2 ^ 52 ∧ -1074 < b.exponent
    · rw [low_eq_power h.1 h.2]
      exact ⟨hlow h.1 h.2, fun _ => by rw [h.1]; norm_num⟩
    · have hle := hb.le_exponent
      rw [low_eq hb (by omega)]
      exact ⟨by linarith [hnear.low], fun h => hnear.even (.inl (by linarith))⟩
  refine ⟨?_, ?_, ?_⟩ <;> rw [hfour]
  · exact mul_le_mul_of_nonneg_right hlow'.1 hunit.le
  · rw [high_eq]
    exact mul_le_mul_of_nonneg_right (by linarith [hnear.high]) hunit.le
  · rw [mul_left_inj' hunit.ne', mul_left_inj' hunit.ne', high_eq]
    rintro (h | h)
    · exact hlow'.2 h
    · exact hnear.even (.inr (by linarith))

end Binary

/-- The result of rounding is a float that takes the exact value, unless that is too small for any. -/
theorem exists_roundWithAccuracy (s : Sign) {m : ℕ} {e : ℤ} {accuracy : Accuracy} {v : ℚ}
    (h : Approximates (.ofMantissaAndAccuracy m accuracy) (v / 2 ^ e)) (hbits : 2 ^ 52 ≤ m ∨ e ≤ -1074)
    (hv : 2 ^ (-1075 : ℤ) < v) :
    ∃ (b : Binary) (hb : b.Canonical), b.Takes v ∧
      roundWithAccuracy .binary64 s m e accuracy = .finite s b.mantissa b.exponent hb.pos := by
  obtain ⟨em, t, hshift, happrox, hleast, hfull, hlt⟩ := exists_shift h hbits
  have hnear := happrox.isNearest
  rw [roundWithAccuracy, hshift]
  dsimp only
  generalize em.roundedMantissa = n at hnear
  have hn : n ≤ 2 ^ 53 := by
    have : (n : ℚ) < 2 ^ 53 + 1 := by linarith [hnear.low]
    exact Nat.lt_succ_iff.1 (by exact_mod_cast this)
  have hpos : 0 < n := by
    have hhalf : 1 < 2 * (v / 2 ^ t) := by
      rcases hfull with rfl | hfull
      · rw [← div_lt_iff₀' two_pos, lt_div_iff₀ (by positivity)]
        calc (1 / 2 : ℚ) * 2 ^ (-1074 : ℤ) = 2 ^ (-1075 : ℤ) := by
              rw [show (-1075 : ℤ) = -1074 - 1 from rfl, zpow_sub_one₀ two_ne_zero, one_div, mul_comm]
          _ < v := hv
      · linarith
    have : (0 : ℚ) < n := by linarith [hnear.high]
    exact_mod_cast this
  rcases Nat.lt_or_eq_of_le hn with hn | rfl
  · have hfull' : 2 ^ 52 ≤ n ∨ t = -1074 := by
      rcases hfull with hfull | hfull
      · exact .inr hfull
      · have : (2 ^ 53 : ℚ) ≤ 2 * n + 1 := by linarith [hnear.high]
        have : 2 ^ 53 ≤ 2 * n + 1 := by exact_mod_cast this
        exact .inl (by omega)
    have hb : Binary.Canonical ⟨n, t⟩ := ⟨hpos, hn, hleast, hfull'⟩
    refine ⟨⟨n, t⟩, hb, Binary.takes_of_isNearest hb rfl hnear ?_, ?_⟩
    · intro hpower ht
      have hx := hfull.resolve_left (ne_of_gt ht)
      rw [show (n : ℚ) = 2 ^ 52 by exact_mod_cast hpower]
      linarith
    · rw [shift_exact hn hleast]
      exact dif_neg hpos.ne'
  · -- the carry into a 54th bit is shifted out again
    have hb : Binary.Canonical ⟨2 ^ 52, t + 1⟩ :=
      ⟨by norm_num, by norm_num, by show -1074 ≤ t + 1; omega, .inl (le_refl _)⟩
    have hx : v / 2 ^ (t + 1) = v / 2 ^ t / 2 := by simpa using div_zpow_add v t 1
    have hlow := hnear.low
    push_cast at hlow
    refine ⟨⟨2 ^ 52, t + 1⟩, hb, Binary.takes_of_isNearest hb hx ⟨?_, ?_, fun _ => ?_⟩ fun _ _ => ?_, ?_⟩
    · push_cast
      linarith
    · push_cast
      linarith
    · norm_num
    · push_cast
      linarith
    · rw [shift_carry hleast]
      exact dif_neg (by rw [mantissa_ofMantissaAndAccuracy]; norm_num)

/-! ## One float for each value -/

namespace Binary

variable {b b' : Binary} {v : ℚ}

/-- Halfway to the next smaller float of the same exponent. -/
theorem Takes.low_le (hb : b.Canonical) (h : b.Takes v) : (4 * b.mantissa - 2) * 2 ^ b.exponent ≤ 4 * v := by
  refine (mul_le_mul_of_nonneg_right ?_ (by positivity)).trans h.low
  by_cases hpower : b.mantissa = 2 ^ 52 ∧ -1074 < b.exponent
  · rw [low_eq_power hpower.1 hpower.2]
    linarith
  · have hle := hb.le_exponent
    rw [low_eq hb (by omega)]

theorem Takes.le_high (h : b.Takes v) : 4 * v ≤ (4 * b.mantissa + 2) * 2 ^ b.exponent := by
  rw [← high_eq]
  exact h.high

theorem Takes.not_exponent_lt (hb : b.Canonical) (hb' : b'.Canonical) (h : b.Takes v) (h' : b'.Takes v) :
    ¬ b.exponent < b'.exponent := by
  intro hlt
  have hunit : (0 : ℚ) < 2 ^ b.exponent := by positivity
  have hdouble : 2 * (2 : ℚ) ^ b.exponent ≤ 2 ^ b'.exponent := by
    rw [mul_comm, ← zpow_add_one₀ two_ne_zero]
    exact zpow_le_zpow_right₀ one_le_two hlt
  have hm : (b.mantissa : ℚ) + 1 ≤ 2 ^ 53 := by exact_mod_cast hb.lt
  have hle := hb.le_exponent
  have hm' : 2 ^ 52 ≤ b'.mantissa := hb'.full.resolve_right (by omega)
  have hhigh := h.le_high
  rcases Nat.eq_or_lt_of_le hm' with heq | hgt
  · -- only the ends of the two intervals meet, below a power of two, where the lower mantissa is odd
    have hlow' := h'.low
    rw [low_eq_power heq.symm (by omega), ← heq] at hlow'
    push_cast at hlow'
    have hmax : (2 ^ 53 : ℚ) ≤ b.mantissa + 1 := by
      have : (2 ^ 55 - 2) * (2 : ℚ) ^ b.exponent ≤ (4 * b.mantissa + 2) * 2 ^ b.exponent := by linarith
      linarith [le_of_mul_le_mul_right this hunit]
    have hmantissa : b.mantissa + 1 = 2 ^ 53 := by exact_mod_cast le_antisymm hm hmax
    have heven := h.even (.inr (le_antisymm h.high ?_))
    · omega
    · rw [high_eq, show (b.mantissa : ℚ) = 2 ^ 53 - 1 by linarith]
      linarith
  · have hbig : (2 : ℚ) ^ 52 + 1 ≤ b'.mantissa := by exact_mod_cast hgt
    have hlow' := h'.low_le hb'
    have : (2 ^ 54 + 2) * (2 * (2 : ℚ) ^ b.exponent) ≤ (4 * b'.mantissa - 2) * 2 ^ b'.exponent :=
      mul_le_mul (by linarith) hdouble (by positivity) (by linarith)
    have : (2 ^ 55 + 4) * (2 : ℚ) ^ b.exponent ≤ (2 ^ 55 - 2) * 2 ^ b.exponent := by
      have := mul_le_mul_of_nonneg_right (show 4 * (b.mantissa : ℚ) + 2 ≤ 2 ^ 55 - 2 by linarith) hunit.le
      linarith
    linarith [le_of_mul_le_mul_right this hunit]

theorem Takes.mantissa_le (hb' : b'.Canonical) (hexponent : b.exponent = b'.exponent)
    (h : b.Takes v) (h' : b'.Takes v) : b'.mantissa ≤ b.mantissa := by
  by_contra hlt
  have hunit : (0 : ℚ) < 2 ^ b.exponent := by positivity
  have hm : (b.mantissa : ℚ) + 1 ≤ b'.mantissa := by exact_mod_cast Nat.lt_of_not_le hlt
  have hlow' := h'.low_le hb'
  rw [← hexponent] at hlow'
  have hm' : (b'.mantissa : ℚ) ≤ b.mantissa + 1 := by
    linarith [le_of_mul_le_mul_right (hlow'.trans h.le_high) hunit]
  have hnext : b'.mantissa = b.mantissa + 1 := by exact_mod_cast le_antisymm hm' hm
  -- the value lies halfway between neighbours, and only one of them is even
  have hhalf : 4 * v = (4 * b.mantissa + 2) * 2 ^ b.exponent := by
    refine le_antisymm h.le_high ?_
    have hcast : 4 * (b.mantissa : ℚ) + 2 = 4 * b'.mantissa - 2 := by
      rw [hnext]
      push_cast
      ring
    rwa [hcast]
  have heven := h.even (.inr (by rw [high_eq, hhalf]))
  by_cases hpower : b'.mantissa = 2 ^ 52 ∧ -1074 < b'.exponent
  · have hlow := h'.low
    rw [low_eq_power hpower.1 hpower.2, ← hexponent, hhalf] at hlow
    linarith [le_of_mul_le_mul_right hlow hunit]
  · have hle := hb'.le_exponent
    have heven' := h'.even (.inl ?_)
    · omega
    · rw [low_eq hb' (by omega), ← hexponent, hhalf, hnext]
      push_cast
      ring

/-- The intervals of two floats have no number in common. -/
theorem Takes.unique (hb : b.Canonical) (hb' : b'.Canonical) (h : b.Takes v) (h' : b'.Takes v) : b = b' := by
  have hexponent : b.exponent = b'.exponent :=
    le_antisymm (not_lt.1 (Takes.not_exponent_lt hb' hb h' h)) (not_lt.1 (Takes.not_exponent_lt hb hb' h h'))
  have hmantissa : b.mantissa = b'.mantissa :=
    le_antisymm (Takes.mantissa_le hb hexponent.symm h' h) (Takes.mantissa_le hb' hexponent h h')
  cases b
  cases b'
  cases hexponent
  cases hmantissa
  rfl

/-- What rounds to a positive float is more than half the least of them. -/
theorem Takes.half_lt (hb : b.Canonical) (h : b.Takes v) : 2 ^ (-1075 : ℤ) < v := by
  have hunit : (0 : ℚ) < 2 ^ b.exponent := by positivity
  have hleast : (2 : ℚ) ^ (-1074 : ℤ) ≤ 2 ^ b.exponent := zpow_le_zpow_right₀ one_le_two hb.le_exponent
  have hhalf : (2 : ℚ) * 2 ^ (-1075 : ℤ) = 2 ^ (-1074 : ℤ) := by
    rw [mul_comm, ← zpow_add_one₀ two_ne_zero]
    rfl
  generalize (2 : ℚ) ^ (-1075 : ℤ) = half at hhalf ⊢
  rw [← hhalf] at hleast
  have hlow := h.low_le hb
  rcases Nat.eq_or_lt_of_le hb.pos with hone | hmore
  · have hexponent : b.exponent = -1074 := hb.full.resolve_left (by omega)
    have hlow' : (b.interval.1 : ℚ) = 2 := by
      rw [low_eq hb (.inr hexponent), ← hone]
      norm_num
    rw [← hone] at hlow
    push_cast at hlow
    refine lt_of_le_of_ne (by linarith) fun heq => ?_
    have heven := h.even (.inl (by rw [hlow', ← heq, hexponent, ← hhalf]; ring))
    omega
  · have hm : (2 : ℚ) ≤ b.mantissa := by exact_mod_cast hmore
    have : 6 * (2 : ℚ) ^ b.exponent ≤ (4 * b.mantissa - 2) * 2 ^ b.exponent :=
      mul_le_mul_of_nonneg_right (by linarith) hunit.le
    linarith

end Binary

/-- Rounding a value gives the float that takes it. -/
theorem roundWithAccuracy_eq (s : Sign) {m : ℕ} {e : ℤ} {accuracy : Accuracy} {v : ℚ}
    (h : Approximates (.ofMantissaAndAccuracy m accuracy) (v / 2 ^ e)) (hbits : 2 ^ 52 ≤ m ∨ e ≤ -1074)
    {b : Binary} (hb : b.Canonical) (htakes : b.Takes v) :
    roundWithAccuracy .binary64 s m e accuracy = .finite s b.mantissa b.exponent hb.pos := by
  obtain ⟨b', hb', htakes', hround⟩ := exists_roundWithAccuracy s h hbits (htakes.half_lt hb)
  obtain rfl := Binary.Takes.unique hb' hb htakes' htakes
  exact hround

end Scriptorium.Decimal
