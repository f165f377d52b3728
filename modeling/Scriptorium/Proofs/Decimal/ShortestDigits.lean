import Scriptorium.Proofs.Decimal.NearestFloat

/-!
# The digits of a float

The digits that are found for a float round to it. On each grid the two neighbours of the float are tried, and on
a grid of 17 digits one of them lies within the interval of the float (`exists_admits`). So the search ends with
a decimal that the float takes (`takes_shortest`).
-/

namespace Scriptorium.Decimal

/-- The exact value. -/
def Scaled.value (d : Scaled) : ℚ := d.digits * 10 ^ d.exponent

theorem value_stripZeros (fuel d : ℕ) (e : ℤ) : (stripZeros fuel d e).value = d * 10 ^ e := by
  fun_induction stripZeros fuel d e with
  | case1 => rfl
  | case2 fuel d e h ih =>
    have hd : (d : ℚ) = 10 * (d / 10 : ℕ) := by
      exact_mod_cast (Nat.mul_div_cancel' (Nat.dvd_of_mod_eq_zero h.1)).symm
    rw [ih, hd, zpow_add_one₀ (by norm_num)]
    ring
  | case3 => rfl

namespace Binary

variable {b : Binary} {d : Scaled} {e : ℤ}

/-! ## Admitted decimals -/

/-- The two sides that are compared, in units of the float. -/
theorem scaled_mul_unit (b : Binary) (d : Scaled) :
    ((d.digits * Nat.pow 10 d.exponent.toNat * Nat.pow 2 (-(b.exponent - 2)).toNat : ℕ) : ℚ) * 2 ^ b.exponent =
      4 * d.value * (Nat.pow 10 (-d.exponent).toNat * Nat.pow 2 (b.exponent - 2).toNat : ℕ) := by
  have hunit : (2 : ℚ) ^ b.exponent = 4 * 2 ^ (b.exponent - 2) := by
    rw [zpow_sub₀ two_ne_zero]
    norm_num
    ring
  rw [hunit, Scaled.value, zpow_eq_div 2, zpow_eq_div 10]
  simp only [Nat.pow_eq]
  push_cast
  field_simp

/-- A decimal is admitted if it lies in the interval, and not at an end unless the mantissa is even. -/
theorem admits_iff (b : Binary) (d : Scaled) : b.admits d = true ↔
    if b.mantissa % 2 = 0 then
      b.interval.1 * 2 ^ b.exponent ≤ 4 * d.value ∧ 4 * d.value ≤ b.interval.2 * 2 ^ b.exponent
    else b.interval.1 * 2 ^ b.exponent < 4 * d.value ∧ 4 * d.value < b.interval.2 * 2 ^ b.exponent := by
  obtain ⟨scaled, hscaled⟩ : ∃ n,
      d.digits * Nat.pow 10 d.exponent.toNat * Nat.pow 2 (-(b.exponent - 2)).toNat = n := ⟨_, rfl⟩
  obtain ⟨factor, hfactor⟩ : ∃ n,
      Nat.pow 10 (-d.exponent).toNat * Nat.pow 2 (b.exponent - 2).toNat = n := ⟨_, rfl⟩
  have hadmits : b.admits d =
      if b.mantissa % 2 = 0 then
        decide (b.interval.1 * factor ≤ scaled) && decide (scaled ≤ b.interval.2 * factor)
      else decide (b.interval.1 * factor < scaled) && decide (scaled < b.interval.2 * factor) := by
    rw [← hscaled, ← hfactor]
    rfl
  have hscale := scaled_mul_unit b d
  rw [hscaled, hfactor] at hscale
  have hunit : (0 : ℚ) < 2 ^ b.exponent := by positivity
  have hpos : (0 : ℚ) < factor := by
    rw [← hfactor]
    exact_mod_cast Nat.mul_pos (Nat.pow_pos (by norm_num)) (Nat.pow_pos (by norm_num))
  have hle (n : ℕ) : n * factor ≤ scaled ↔ n * 2 ^ b.exponent ≤ 4 * d.value := by
    rw [← Nat.cast_le (α := ℚ), ← mul_le_mul_iff_left₀ hunit, hscale, Nat.cast_mul, mul_right_comm]
    exact mul_le_mul_iff_left₀ hpos
  have hge (n : ℕ) : scaled ≤ n * factor ↔ 4 * d.value ≤ n * 2 ^ b.exponent := by
    rw [← Nat.cast_le (α := ℚ), ← mul_le_mul_iff_left₀ hunit, hscale, Nat.cast_mul, mul_right_comm (n : ℚ)]
    exact mul_le_mul_iff_left₀ hpos
  rw [hadmits]
  split
  · rw [Bool.and_eq_true, decide_eq_true_iff, decide_eq_true_iff, hle, hge]
  · rw [Bool.and_eq_true, decide_eq_true_iff, decide_eq_true_iff, ← not_le, ← not_le, hle, hge, not_le, not_le]

/-- A float takes the decimals that it admits. -/
theorem takes_of_admits (h : b.admits d = true) : b.Takes d.value := by
  rw [admits_iff] at h
  split at h
  · next heven => exact ⟨h.1, h.2, fun _ => heven⟩
  · next hodd =>
    refine ⟨h.1.le, h.2.le, ?_⟩
    rintro (heq | heq)
    · exact absurd heq h.1.ne'
    · exact absurd heq h.2.ne

theorem admits_of_lt (low : b.interval.1 * 2 ^ b.exponent < 4 * d.value)
    (high : 4 * d.value < b.interval.2 * 2 ^ b.exponent) : b.admits d = true := by
  rw [admits_iff]
  split
  · exact ⟨low.le, high.le⟩
  · exact ⟨low, high⟩

/-! ## The decimal place -/

theorem le_placeFrom {num den : ℕ} (hden : 0 < den) (fuel : ℕ) (k : ℤ) (h : (10 : ℚ) ^ (k - 1) ≤ num / den) :
    (10 : ℚ) ^ (placeFrom num den fuel k - 1) ≤ num / den := by
  induction fuel generalizing k with
  | zero => exact h
  | succ fuel ih =>
    rw [placeFrom]
    split
    · exact h
    · next hnot =>
      refine ih (k + 1) ?_
      have hle : den * 10 ^ k.toNat ≤ num * 10 ^ (-k).toNat := Nat.le_of_not_lt hnot
      have hd : (0 : ℚ) < den := by exact_mod_cast hden
      rw [add_sub_cancel_right, zpow_eq_div, div_le_div_iff₀ (by positivity) hd, mul_comm]
      exact_mod_cast hle

/-- The first place that is tried lies low enough, for every binary exponent of a float. -/
theorem ten_zpow_start_le {l : ℤ} (hlow : -1074 ≤ l) (hhigh : l ≤ 1024) :
    (10 : ℚ) ^ (l * 30103 / 100000 - 1 - 1) ≤ 2 ^ l := by
  rcases le_total 0 (l * 30103 / 100000 - 1 - 1) with h | h
  · exact ten_zpow_le_of_nonneg h (by omega)
  · exact ten_zpow_le_of_nonpos h (by omega)

variable (tie : TieRule) (hb : b.Canonical) (hmax : b.exponent ≤ 971)
include hb hmax

theorem ten_zpow_place_le : (10 : ℚ) ^ (b.place - 1) ≤ b.value := by
  have hlog : b.mantissa.log2 < 53 := (Nat.log2_lt hb.pos.ne').2 hb.lt
  have hle := hb.le_exponent
  have hpower : (2 : ℚ) ^ ((b.mantissa.log2 : ℤ) + b.exponent) ≤ b.value := by
    rw [zpow_add₀ two_ne_zero, zpow_natCast, value]
    refine mul_le_mul_of_nonneg_right ?_ (by positivity)
    exact_mod_cast Nat.log2_self_le hb.pos.ne'
  have hstart := (ten_zpow_start_le (by omega) (by omega)).trans hpower
  rw [value_eq_quotient] at hstart ⊢
  exact le_placeFrom b.den_pos 4 _ hstart

/-! ## The search -/

omit hmax in
/-- Where the grid is finer than the float needs, one of its neighbours on the grid is admitted. -/
theorem exists_admits {below : ℕ} (hgrid : 10 ^ e * 10 ^ 16 ≤ b.value) (hlow : below * 10 ^ e ≤ b.value)
    (hhigh : b.value < (below + 1) * 10 ^ e) :
    b.admits ⟨below, e⟩ = true ∨ b.admits ⟨below + 1, e⟩ = true := by
  have hm : (b.mantissa : ℚ) + 1 ≤ 2 ^ 53 := by exact_mod_cast hb.lt
  have hunit : (0 : ℚ) < 2 ^ b.exponent := by positivity
  have hstep : (0 : ℚ) < 10 ^ e := by positivity
  have hbelow : Scaled.value ⟨below, e⟩ = below * 10 ^ e := rfl
  have habove : Scaled.value ⟨below + 1, e⟩ = (below + 1) * 10 ^ e := by
    rw [Scaled.value]
    push_cast
    rfl
  have hfine : (10 : ℚ) ^ e < 2 ^ b.exponent := by
    have : b.value ≤ 2 ^ 53 * 2 ^ b.exponent := mul_le_mul_of_nonneg_right (by linarith) hunit.le
    linarith
  have hvalue : b.value = b.mantissa * 2 ^ b.exponent := rfl
  have hhighEnd : (b.interval.2 : ℚ) * 2 ^ b.exponent = 4 * b.value + 2 * 2 ^ b.exponent := by
    rw [high_eq, hvalue]
    ring
  have hlowEnd : (b.interval.1 : ℚ) * 2 ^ b.exponent < 4 * b.value := by
    have : (b.interval.1 : ℚ) < 4 * b.mantissa := by
      by_cases h : b.mantissa = 2 ^ 52 ∧ -1074 < b.exponent
      · rw [low_eq_power h.1 h.2]
        linarith
      · have := hb.le_exponent
        rw [low_eq hb (by omega)]
        linarith
    rw [hvalue, ← mul_assoc]
    exact mul_lt_mul_of_pos_right this hunit
  by_cases hnear : 4 * ((below + 1) * 10 ^ e) < 4 * b.value + 2 * 2 ^ b.exponent
  · refine .inr (admits_of_lt ?_ ?_)
    · rw [habove]
      linarith
    · rwa [habove, hhighEnd]
  · refine .inl (admits_of_lt ?_ ?_)
    · rw [hbelow]
      by_cases h : b.mantissa = 2 ^ 52 ∧ -1074 < b.exponent
      · -- a power of two is so coarse that its upper neighbour is always near enough
        rw [hvalue, h.1] at hgrid
        push_cast at hgrid
        linarith
      · have := hb.le_exponent
        rw [low_eq hb (by omega), sub_mul, mul_assoc, ← hvalue]
        linarith
    · rw [hbelow, hhighEnd]
      linarith

omit hmax in
theorem onGrid?_isSome (hgrid : 10 ^ e * 10 ^ 16 ≤ b.value) : (b.onGrid? tie e).isSome = true := by
  obtain ⟨num, hnum⟩ : ∃ num, b.quotient.1 * Nat.pow 10 (-e).toNat = num := ⟨_, rfl⟩
  obtain ⟨den, hden⟩ : ∃ den, b.quotient.2 * Nat.pow 10 e.toNat = den := ⟨_, rfl⟩
  have hpos : 0 < den := hden ▸ Nat.mul_pos b.den_pos (Nat.pow_pos (by norm_num))
  have hd : (0 : ℚ) < den := by exact_mod_cast hpos
  have hstep : (0 : ℚ) < 10 ^ e := by positivity
  have hratio : b.value / 10 ^ e = num / den := by
    rw [value_eq_quotient, zpow_eq_div, ← hnum, ← hden]
    simp only [Nat.pow_eq]
    push_cast
    field_simp
  have hlow : ((num / den : ℕ) : ℚ) * 10 ^ e ≤ b.value := by
    rw [← le_div_iff₀ hstep, hratio, le_div_iff₀ hd]
    exact_mod_cast Nat.div_mul_le_self num den
  have hhigh : b.value < ((num / den : ℕ) + 1) * 10 ^ e := by
    rw [← div_lt_iff₀ hstep, hratio, div_lt_iff₀ hd, mul_comm]
    exact_mod_cast Nat.lt_mul_div_succ num hpos
  have hgrid' : b.onGrid? tie e =
      ((if tie.takesLower (num / den) (num % den) den then [num / den, num / den + 1]
        else [num / den + 1, num / den]).map fun d => (⟨d, e⟩ : Scaled)).find? b.admits := by
    rw [← hnum, ← hden]
    rfl
  rw [hgrid', List.find?_isSome]
  rcases exists_admits hb hgrid hlow hhigh with h | h
  · refine ⟨_, ?_, h⟩
    split <;> simp
  · refine ⟨_, ?_, h⟩
    split <;> simp

theorem admits_searchGrids (count n : ℕ) (hcount : n + count = 17) :
    b.admits (b.searchGrids tie b.place (count + 1) n) = true := by
  induction count generalizing n with
  | zero =>
    have hgrid : (10 : ℚ) ^ (b.place - n) * 10 ^ 16 ≤ b.value := by
      have hsplit : (10 : ℚ) ^ (b.place - 1) = 10 ^ (b.place - n) * 10 ^ 16 := by
        rw [← zpow_natCast, ← zpow_add₀ (by norm_num)]
        congr 1
        omega
      rw [← hsplit]
      exact ten_zpow_place_le hb hmax
    obtain ⟨d, hd⟩ := Option.isSome_iff_exists.1 (onGrid?_isSome tie hb hgrid)
    rw [searchGrids, hd]
    exact List.find?_some hd
  | succ count ih =>
    rw [searchGrids]
    cases hd : b.onGrid? tie (b.place - n) with
    | none => exact ih (n + 1) (by omega)
    | some d => exact List.find?_some hd

/-- The digits of a float round to it. -/
theorem takes_shortest : b.Takes (b.shortest tie).value := by
  have hadmits := takes_of_admits (admits_searchGrids tie hb hmax 16 1 rfl)
  rw [shortest, if_neg hb.pos.ne']
  dsimp only
  rwa [value_stripZeros]

theorem digits_shortest_pos : 0 < (b.shortest tie).digits := by
  refine Nat.pos_of_ne_zero fun hzero => ?_
  have hlt := (takes_shortest tie hb hmax).half_lt hb
  rw [Scaled.value, hzero, Nat.cast_zero, zero_mul] at hlt
  exact absurd hlt (not_lt.2 (by positivity))

end Binary

end Scriptorium.Decimal
