import Mathlib.Algebra.GCDMonoid.Nat
import Scriptorium.Numbers.Integers

/-!
# Common divisors and multiples in 64 bits

Dividing with remainders comes to the greatest common divisor (`exists_euclid`), and no step of it divides by zero. The
absolute values of two numbers fit without a sign, so the only thing that can fail is giving the result a sign
(`gcd_eq`). The least common multiple is computed from the divisor, whose quotient is exact: the product fits whenever
its absolute value does, and that is the multiple (`lcm_eq`).
-/

namespace Scriptorium.Numbers

variable {a b : Int64}

/-! ## Dividing with remainders -/

theorem natAbs_toInt_le (a : Int64) : a.toInt.natAbs ≤ 2 ^ 63 := by
  have hle := a.le_toInt
  have hlt := a.toInt_lt
  omega

theorem toNat_magnitude (a : Int64) : (magnitude a).toNat = a.toInt.natAbs :=
  UInt64.toNat_ofNat_of_lt' ((natAbs_toInt_le a).trans_lt (by decide))

theorem exists_euclid (a b : UInt64) : ∃ g, euclid a b = .ok g ∧ g.toNat = Nat.gcd a.toNat b.toNat := by
  fun_induction euclid a b with
  | case1 a => exact ⟨a, rfl, (Nat.gcd_zero_right _).symm⟩
  | case2 a b hb r hr ih =>
    rw [remainderUnsigned, if_neg hb] at hr
    cases hr
    obtain ⟨g, hg, hgcd⟩ := ih
    refine ⟨g, hg, ?_⟩
    calc g.toNat
        = Nat.gcd b.toNat (a.toNat % b.toNat) := by rw [hgcd, UInt64.toNat_mod]
      _ = Nat.gcd b.toNat a.toNat := by rw [Nat.gcd_comm, ← Nat.gcd_rec]
      _ = Nat.gcd a.toNat b.toNat := Nat.gcd_comm _ _
  | case3 a b hb f hr =>
    rw [remainderUnsigned, if_neg hb] at hr
    cases hr

theorem gcd_eq (a b : Int64) : gcd a b = fitOr .gcdOverflow (Int.gcd a.toInt b.toInt) := by
  obtain ⟨g, hg, hgcd⟩ := exists_euclid (magnitude a) (magnitude b)
  rw [toNat_magnitude, toNat_magnitude, ← Int.gcd_eq_natAbs_gcd_natAbs] at hgcd
  rw [gcd, hg, ← hgcd]
  rfl

/-! ## Multiples -/

/-- The absolute value of a product is computed whenever it fits. -/
theorem multiply?_bind_absolute? (a b : Int64) :
    (multiply? a b).bind absolute? = fit? (a.toInt * b.toInt).natAbs := by
  refine Option.ext fun m => ?_
  rw [Option.bind_eq_some_iff, fit?_eq_some_iff]
  constructor
  · rintro ⟨p, hp, hm⟩
    rw [← fit?_eq_some_iff.1 hp]
    exact fit?_eq_some_iff.1 hm
  · intro hm
    have hlt := m.toInt_lt
    obtain ⟨p, hp, hproduct⟩ := exists_fit? (n := a.toInt * b.toInt)
      (by rw [Int64.toInt_minValue]; omega) (by rw [Int64.toInt_maxValue]; omega)
    refine ⟨p, hp, fit?_eq_some_iff.2 ?_⟩
    rw [hm, hproduct]

/-- A quotient by a positive number fits. -/
theorem exists_divide {g : Int64} (hg : 0 < g.toInt) (a : Int64) :
    ∃ q, divide a g = .ok q ∧ q.toInt = a.toInt.tdiv g.toInt := by
  have hne : g ≠ 0 := by
    rintro rfl
    exact absurd hg (by decide)
  have hrange : Int64.minValue.toInt ≤ a.toInt.tdiv g.toInt ∧ a.toInt.tdiv g.toInt ≤ Int64.maxValue.toInt := by
    have hle := a.le_toInt
    have hlt := a.toInt_lt
    rw [Int64.toInt_minValue, Int64.toInt_maxValue]
    -- the quotient has the sign of the dividend and is not farther from zero
    have habs := Int.natAbs_tdiv_le_natAbs a.toInt g.toInt
    rcases le_total 0 a.toInt with hsign | hsign
    · have := Int.tdiv_nonneg hsign hg.le
      omega
    · have := Int.tdiv_nonneg (neg_nonneg.2 hsign) hg.le
      rw [Int.neg_tdiv] at this
      omega
  obtain ⟨q, hq, hquotient⟩ := exists_fit? hrange.1 hrange.2
  exact ⟨q, by rw [divide, if_neg hne, fitOr, hq], hquotient⟩

theorem natAbs_tdiv_gcd_mul (a b : ℤ) : (a.tdiv (Int.gcd a b) * b).natAbs = Int.lcm a b := by
  rw [Int.natAbs_mul, Int.natAbs_tdiv, Int.natAbs_natCast, Int.lcm_eq_natAbs_lcm_natAbs, Nat.lcm_eq_mul_div]
  exact Nat.div_mul_right_comm (Nat.gcd_dvd_left _ _) _

/-- The greatest common divisor of numbers other than zero fits unless both are the least number. -/
theorem gcd_lt_of_ne (ha : a ≠ 0) (hb : b ≠ 0) (h : ¬(a = Int64.minValue ∧ b = Int64.minValue)) :
    Int.gcd a.toInt b.toInt < 2 ^ 63 := by
  have hle {c : Int64} (hc : c ≠ 0) (hdvd : Int.gcd a.toInt b.toInt ∣ c.toInt.natAbs) :
      Int.gcd a.toInt b.toInt ≤ c.toInt.natAbs := by
    refine Nat.le_of_dvd (Int.natAbs_pos.2 fun hzero => hc ?_) hdvd
    exact Int64.toInt_inj.1 hzero
  have hleft := hle ha (Int.gcd_dvd_natAbs_left _ _)
  have hright := hle hb (Int.gcd_dvd_natAbs_right _ _)
  by_contra hnot
  have hmin (c : Int64) (hc : 2 ^ 63 ≤ c.toInt.natAbs) : c = Int64.minValue := by
    rw [← Int64.toInt_inj, Int64.toInt_minValue]
    have hlt := c.toInt_lt
    have hge := c.le_toInt
    omega
  exact h ⟨hmin a (by omega), hmin b (by omega)⟩

theorem lcm_eq (a b : Int64) :
    lcm a b = if a = Int64.minValue ∧ b = Int64.minValue then .error .gcdOverflow
      else fitOr .lcmOverflow (Int.lcm a.toInt b.toInt) := by
  unfold lcm
  split_ifs with hzero hmin hmin
  · obtain ⟨rfl, rfl⟩ := hmin
    exact absurd hzero (by decide)
  · rw [eq_comm, fitOr_eq_ok_iff]
    rcases hzero with rfl | rfl
    · rw [Int64.toInt_zero, Int.lcm_zero_left]
      rfl
    · rw [Int64.toInt_zero, Int.lcm_zero_right]
      rfl
  · obtain ⟨rfl, rfl⟩ := hmin
    rw [gcd_eq]
    rfl
  · rw [not_or] at hzero
    have hlt := gcd_lt_of_ne hzero.1 hzero.2 hmin
    have hpos : 0 < Int.gcd a.toInt b.toInt :=
      Int.gcd_pos_of_ne_zero_left _ fun h => hzero.1 (Int64.toInt_inj.1 h)
    obtain ⟨g, hg, hgcd⟩ := exists_fit? (n := Int.gcd a.toInt b.toInt)
      (by rw [Int64.toInt_minValue]; omega) (by rw [Int64.toInt_maxValue]; omega)
    obtain ⟨q, hq, hquotient⟩ := exists_divide (by omega : 0 < g.toInt) a
    rw [gcd_eq, fitOr, hg]
    simp only [bind, Except.bind, hq, Except.mapError, multiply?_bind_absolute?]
    rw [hquotient, hgcd, natAbs_tdiv_gcd_mul]
    rfl

/-! ## Exactness -/

/-- The greatest common divisor is returned if it fits, and so is the least common multiple. Otherwise there is an
error, and it says what did not fit; that the program ends is not among the outcomes. -/
theorem gcd_lcm_exact (a b : Int64) :
    (∀ g, gcd a b = .ok g ↔ g.toInt = Int.gcd a.toInt b.toInt) ∧
    (∀ e, gcd a b = .error e ↔ e = .gcdOverflow ∧ Int64.maxValue.toInt < Int.gcd a.toInt b.toInt) ∧
    (∀ m, lcm a b = .ok m ↔ m.toInt = Int.lcm a.toInt b.toInt) ∧
    (∀ e, lcm a b = .error e ↔ Int64.maxValue.toInt < Int.lcm a.toInt b.toInt ∧
      e = if a = Int64.minValue ∧ b = Int64.minValue then .gcdOverflow else .lcmOverflow) := by
  have hnonneg (n : ℕ) : ¬(n : ℤ) < Int64.minValue.toInt := by
    rw [Int64.toInt_minValue]
    omega
  refine ⟨fun g => ?_, fun e => ?_, fun m => ?_, fun e => ?_⟩
  · rw [gcd_eq, fitOr_eq_ok_iff]
  · rw [gcd_eq, fitOr_eq_error_iff, or_iff_right (hnonneg _)]
  · rw [lcm_eq]
    split_ifs with hmin
    · obtain ⟨rfl, rfl⟩ := hmin
      refine iff_of_false nofun fun h => ?_
      have hlt := m.toInt_lt
      rw [h] at hlt
      exact absurd hlt (by decide)
    · exact fitOr_eq_ok_iff
  · rw [lcm_eq]
    split_ifs with hmin
    · obtain ⟨rfl, rfl⟩ := hmin
      rw [Except.error.injEq, eq_comm, and_iff_right (by decide)]
    · rw [fitOr_eq_error_iff, or_iff_right (hnonneg _), and_comm]

end Scriptorium.Numbers
