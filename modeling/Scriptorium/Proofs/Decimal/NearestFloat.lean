import Scriptorium.Proofs.Decimal.FloatForm

/-!
# The float nearest to a decimal

Scaling a natural by a power of ten multiplies or divides exact numbers and rounds once, whether or not both
fit into floats. So the result is the float that takes the exact value: `scaled_eq`.
-/

namespace Scriptorium.Decimal

open Float.Model Float.Model.UnpackedFloat

variable {b : Binary} {v : ℚ} {m₁ m₂ n : ℕ} {e₁ e₂ : ℤ} {h₁ : 0 < m₁} {h₂ : 0 < m₂} {s₁ s₂ : Sign}

/-! ## Products and quotients -/

theorem mul_eq (hbits : 2 ^ 52 ≤ m₁ * m₂) (hb : b.Canonical)
    (htakes : b.Takes (m₁ * 2 ^ e₁ * (m₂ * 2 ^ e₂))) :
    UnpackedFloat.mul .binary64 (.finite s₁ m₁ e₁ h₁) (.finite s₂ m₂ e₂ h₂) =
      .finite (s₁ * s₂) b.mantissa b.exponent hb.pos := by
  refine roundWithAccuracy_eq _ ?_ (.inl hbits) hb htakes
  have hvalue : (m₁ * 2 ^ e₁ * (m₂ * 2 ^ e₂) : ℚ) / 2 ^ (e₁ + e₂) = (m₁ * m₂ : ℕ) := by
    rw [zpow_add₀ two_ne_zero]
    push_cast
    field_simp
  rw [hvalue]
  exact approximates_exact _

theorem div_eq (hb : b.Canonical) (htakes : b.Takes (m₁ * 2 ^ e₁ / (m₂ * 2 ^ e₂))) :
    UnpackedFloat.div .binary64 (.finite s₁ m₁ e₁ h₁) (.finite s₂ m₂ e₂ h₂) =
      .finite (s₁ / s₂) b.mantissa b.exponent hb.pos := by
  obtain ⟨t, ht⟩ : ∃ t, min (e₁ - e₂) (max (totalExponent m₁ e₁ - totalExponent m₂ e₂ - 53) (-1074)) = t :=
    ⟨_, rfl⟩
  obtain ⟨k, hk⟩ : ∃ k, (e₁ - e₂ - t).toNat = k := ⟨_, rfl⟩
  have hcore : divCore .binary64 m₁ e₁ m₂ e₂ =
      (m₁ * 2 ^ k / m₂, t, accuracyOfFraction (m₁ * 2 ^ k % m₂) m₂) := by
    rw [divCore, targetExponent_eq, ht, hk, Nat.shiftLeft_eq]
  have hvalue : (m₁ * 2 ^ e₁ / (m₂ * 2 ^ e₂) : ℚ) / 2 ^ t = (m₁ * 2 ^ k : ℕ) / m₂ := by
    have hsplit : e₁ = e₂ + t + k := by omega
    have hm₂ : (m₂ : ℚ) ≠ 0 := by exact_mod_cast h₂.ne'
    rw [hsplit, zpow_add₀ two_ne_zero, zpow_add₀ two_ne_zero, zpow_natCast]
    push_cast
    field_simp
  have hbits : 2 ^ 52 ≤ m₁ * 2 ^ k / m₂ ∨ t ≤ -1074 := by
    rcases le_or_gt t (-1074) with hleast | hlarge
    · exact .inr hleast
    · -- the numerator was shifted far enough to leave 53 bits of the quotient
      have hshift : m₂.log2 + 53 ≤ m₁.log2 + k := by
        rw [totalExponent, totalExponent] at ht
        omega
      have hlow : 2 ^ m₁.log2 ≤ m₁ := Nat.log2_self_le h₁.ne'
      have hhigh : m₂ < 2 ^ (m₂.log2 + 1) := Nat.lt_log2_self
      refine .inl ((Nat.le_div_iff_mul_le h₂).2 ?_)
      calc 2 ^ 52 * m₂ ≤ 2 ^ 52 * 2 ^ (m₂.log2 + 1) := Nat.mul_le_mul_left _ hhigh.le
        _ = 2 ^ (m₂.log2 + 53) := by ring
        _ ≤ 2 ^ (m₁.log2 + k) := Nat.pow_le_pow_right two_pos hshift
        _ = 2 ^ m₁.log2 * 2 ^ k := pow_add _ _ _
        _ ≤ m₁ * 2 ^ k := Nat.mul_le_mul_right _ hlow
  rw [UnpackedFloat.div, hcore]
  refine roundWithAccuracy_eq _ ?_ hbits hb htakes
  rw [hvalue]
  exact approximates_fraction h₂

section Floats

variable {b₁ b₂ : Binary} (hb₁ : b₁.Canonical) (hb₂ : b₂.Canonical) (hb : b.Canonical)
  (hmax₁ : b₁.exponent ≤ 971) (hmax₂ : b₂.exponent ≤ 971)

include hmax₁ hmax₂

theorem ofParts_mul (hbits : 2 ^ 52 ≤ b₁.mantissa * b₂.mantissa) (htakes : b.Takes (b₁.value * b₂.value)) :
    ofParts s₁ b₁ hb₁.pos * ofParts s₂ b₂ hb₂.pos = ofParts (s₁ * s₂) b hb.pos := by
  show Float.ofModel (.pack (UnpackedFloat.mul .binary64 (ofParts s₁ b₁ hb₁.pos).toModel.unpack
    (ofParts s₂ b₂ hb₂.pos).toModel.unpack)) = _
  rw [unpack_ofParts s₁ hb₁ hmax₁, unpack_ofParts s₂ hb₂ hmax₂, mul_eq hbits hb htakes]
  rfl

theorem ofParts_div (htakes : b.Takes (b₁.value / b₂.value)) :
    ofParts s₁ b₁ hb₁.pos / ofParts s₂ b₂ hb₂.pos = ofParts (s₁ / s₂) b hb.pos := by
  show Float.ofModel (.pack (UnpackedFloat.div .binary64 (ofParts s₁ b₁ hb₁.pos).toModel.unpack
    (ofParts s₂ b₂ hb₂.pos).toModel.unpack)) = _
  rw [unpack_ofParts s₁ hb₁ hmax₁, unpack_ofParts s₂ hb₂ hmax₂, div_eq hb htakes]
  rfl

end Floats

/-! ## Exact numbers -/

/-- A natural below `2 ^ 53` with all 53 bits of its mantissa. -/
def wholeForm (n : ℕ) : Binary := ⟨n * 2 ^ (52 - n.log2), n.log2 - 52⟩

theorem canonical_wholeForm (hpos : 0 < n) (hn : n < 2 ^ 53) : (wholeForm n).Canonical := by
  have hlog : n.log2 < 53 := (Nat.log2_lt hpos.ne').2 hn
  have hlow : 2 ^ n.log2 ≤ n := Nat.log2_self_le hpos.ne'
  have hhigh : n < 2 ^ (n.log2 + 1) := Nat.lt_log2_self
  have hfull : 2 ^ 52 ≤ n * 2 ^ (52 - n.log2) := by
    calc 2 ^ 52 = 2 ^ n.log2 * 2 ^ (52 - n.log2) := by rw [← pow_add]; congr 1; omega
      _ ≤ _ := Nat.mul_le_mul_right _ hlow
  refine ⟨by show 0 < n * 2 ^ (52 - n.log2); omega, ?_, ?_, .inl hfull⟩
  · calc n * 2 ^ (52 - n.log2) < 2 ^ (n.log2 + 1) * 2 ^ (52 - n.log2) :=
          Nat.mul_lt_mul_of_pos_right hhigh (by positivity)
      _ = 2 ^ 53 := by rw [← pow_add]; congr 1; omega
  · show (-1074 : ℤ) ≤ n.log2 - 52
    omega

theorem value_wholeForm (hpos : 0 < n) (hn : n < 2 ^ 53) : (wholeForm n).value = n := by
  have hlog : n.log2 < 53 := (Nat.log2_lt hpos.ne').2 hn
  have hexponent : (n.log2 : ℤ) - 52 = -((52 - n.log2 : ℕ) : ℤ) := by omega
  rw [Binary.value, wholeForm, hexponent, zpow_neg, zpow_natCast]
  push_cast
  field_simp

/-- A float takes its own value. -/
theorem Binary.Canonical.takes_value (hb : b.Canonical) : b.Takes b.value := by
  have hunit : (2 : ℚ) ^ b.exponent ≠ 0 := by positivity
  refine Binary.takes_of_isNearest hb (mul_div_cancel_right₀ _ hunit) ?_ fun _ _ => by linarith
  exact isNearest_of_lt (by linarith) (by linarith)

theorem toFloat_eq (hpos : 0 < n) (hn : n < 2 ^ 53) :
    n.toUInt64.toFloat = ofParts .positive (wholeForm n) (canonical_wholeForm hpos hn).pos := by
  have hlog : n.log2 < 53 := (Nat.log2_lt hpos.ne').2 hn
  have hsame : n.toUInt64.toNat = n := by
    exact UInt64.toNat_ofNat_of_lt' (hn.trans (by norm_num [UInt64.size]))
  have htarget : Format.binary64.targetExponent (totalExponent n 0) = -((52 - n.log2 : ℕ) : ℤ) := by
    rw [targetExponent_eq, totalExponent]
    omega
  have hb := canonical_wholeForm hpos hn
  have hround : UnpackedFloat.round .binary64 .positive n 0 =
      .finite .positive (wholeForm n).mantissa (wholeForm n).exponent (canonical_wholeForm hpos hn).pos := by
    have hshift : (0 - -((52 - n.log2 : ℕ) : ℤ)).toNat = 52 - n.log2 := by omega
    rw [UnpackedFloat.round, htarget, decreaseExponent]
    simp only [hshift, Nat.shiftLeft_eq]
    refine roundWithAccuracy_eq _ ?_ (.inl (hb.full.resolve_right ?_)) hb hb.takes_value
    · have hexponent : (wholeForm n).exponent = 0 - ((52 - n.log2 : ℕ) : ℤ) := by
        show (n.log2 : ℤ) - 52 = _
        omega
      have hunit : (2 : ℚ) ^ (wholeForm n).exponent ≠ 0 := by positivity
      rw [← hexponent, Binary.value, mul_div_cancel_right₀ _ hunit]
      exact approximates_exact _
    · show (n.log2 : ℤ) - 52 ≠ -1074
      omega
  show Float.ofModel (.pack (UnpackedFloat.normalize .binary64 (n.toUInt64.toNat : ℤ) 0 .positive)) = _
  rw [hsame, UnpackedFloat.normalize, Int.compare_eq_gt.2 (by omega)]
  show Float.ofModel (.pack (UnpackedFloat.round .binary64 .positive n 0)) = _
  rw [hround]
  rfl

theorem powerOfTen_eq {e : ℕ} (h : e < Float.exactlyRepresentablePowersOfTen.size) :
    ∃ (p : Binary) (hp : p.Canonical), p.exponent ≤ 971 ∧ p.value = 10 ^ e ∧
      Float.exactlyRepresentablePowersOfTen[e] = ofParts .positive p hp.pos := by
  have htable : ∀ e : Fin 23,
      Float.exactlyRepresentablePowersOfTen[e].isNaN = false ∧
      Float.exactlyRepresentablePowersOfTen[e].isInf = false ∧
      isNegative Float.exactlyRepresentablePowersOfTen[e] = false ∧
      (decode Float.exactlyRepresentablePowersOfTen[e]).mantissa ≠ 0 ∧
      (decode Float.exactlyRepresentablePowersOfTen[e]).mantissa *
          2 ^ (decode Float.exactlyRepresentablePowersOfTen[e]).exponent.toNat =
        10 ^ e.val * 2 ^ (-(decode Float.exactlyRepresentablePowersOfTen[e]).exponent).toNat := by
    decide +kernel
  obtain ⟨hnan, hinf, hsign, hne, hquotient⟩ := htable ⟨e, h⟩
  rcases finite_cases hnan hinf with ⟨hzero, -⟩ | ⟨hb, hmax, heq⟩
  · exact absurd hzero hne
  · refine ⟨_, hb, hmax, ?_, ?_⟩
    · have hden := (decode Float.exactlyRepresentablePowersOfTen[e]).den_pos
      rw [Binary.value_eq_quotient, div_eq_iff (by exact_mod_cast hden.ne')]
      exact_mod_cast hquotient
    · rw [signOf, hsign] at heq
      exact heq

/-! ## Powers of two and of ten -/

theorem ten_zpow_le {a l p q : ℤ} (hq : 0 < q) (hpowers : ((10 : ℚ) ^ q) ^ a ≤ (2 ^ p) ^ a)
    (h : p * a ≤ q * l) : (10 : ℚ) ^ a ≤ 2 ^ l := by
  rw [← zpow_mul, ← zpow_mul] at hpowers
  rw [← zpow_le_zpow_iff_left₀ (by positivity) (by positivity) hq, ← zpow_mul, ← zpow_mul, mul_comm a,
    mul_comm l]
  exact hpowers.trans (zpow_le_zpow_right₀ one_le_two h)

theorem ten_zpow_le_of_nonneg {a l : ℤ} (ha : 0 ≤ a) (h : 196 * a ≤ 59 * l) : (10 : ℚ) ^ a ≤ 2 ^ l :=
  ten_zpow_le (by norm_num) (zpow_le_zpow_left₀ ha (by positivity) (by norm_num)) h

theorem ten_zpow_le_of_nonpos {a l : ℤ} (ha : a ≤ 0) (h : 93 * a ≤ 28 * l) : (10 : ℚ) ^ a ≤ 2 ^ l := by
  refine ten_zpow_le (by norm_num) ?_ h
  rw [← neg_neg a, zpow_neg _ (-a), zpow_neg _ (-a)]
  exact inv_anti₀ (by positivity) (zpow_le_zpow_left₀ (neg_nonneg.2 ha) (by positivity) (by norm_num))

/-! ## Scaled naturals -/

/-- What rounds to a finite float is below twice the greatest power of two among them. -/
theorem Binary.Takes.lt (hb : b.Canonical) (hmax : b.exponent ≤ 971) (h : b.Takes v) : v < 2 ^ (1024 : ℤ) := by
  have hm : (b.mantissa : ℚ) + 1 ≤ 2 ^ 53 := by exact_mod_cast hb.lt
  have hunit : (0 : ℚ) < 2 ^ b.exponent := by positivity
  have hlt : 4 * v < 4 * 2 ^ 53 * 2 ^ b.exponent :=
    h.le_high.trans_lt (mul_lt_mul_of_pos_right (by linarith) hunit)
  calc v < 2 ^ 53 * 2 ^ b.exponent := by linarith
    _ = 2 ^ (53 + b.exponent) := by rw [zpow_add₀ two_ne_zero]; rfl
    _ ≤ 2 ^ (1024 : ℤ) := zpow_le_zpow_right₀ one_le_two (by omega)

theorem digits_bounds (hpos : 0 < n) :
    (10 : ℚ) ^ (((digits n).length : ℤ) - 1) ≤ n ∧ (n : ℚ) < 10 ^ ((digits n).length : ℤ) := by
  have hlength (k : ℕ) (hk : 0 < k) : (digits n).length ≤ k ↔ n < 10 ^ k :=
    Nat.length_toDigits_le_iff (by norm_num) hk
  have hfull : 0 < (digits n).length := Nat.length_toDigits_pos
  constructor
  · obtain ⟨k, hk⟩ : ∃ k, (digits n).length = k + 1 := ⟨_, (Nat.sub_add_cancel hfull).symm⟩
    have hpower : 10 ^ k ≤ n := by
      rcases Nat.eq_zero_or_pos k with rfl | hpos'
      · exact hpos
      · have := (hlength k hpos').not.1 (by omega)
        omega
    rw [hk, Nat.cast_succ, add_sub_cancel_right, zpow_natCast]
    exact_mod_cast hpower
  · rw [zpow_natCast]
    exact_mod_cast (hlength _ hfull).1 le_rfl

section Scaling

variable (hpos : 0 < n) (hb : b.Canonical)
include hpos

theorem ofScientific_small (negative : Bool) {k : ℕ} (hn : n < 2 ^ 53)
    (hk : k < Float.exactlyRepresentablePowersOfTen.size)
    (htakes : b.Takes (n * 10 ^ (if negative then -(k : ℤ) else k))) :
    Float.ofScientific n negative k = ofParts .positive b hb.pos := by
  obtain ⟨p, hp, hpmax, hpvalue, hpower⟩ := powerOfTen_eq hk
  have hform := canonical_wholeForm hpos hn
  have hlog : n.log2 < 53 := (Nat.log2_lt hpos.ne').2 hn
  have hmax' : (wholeForm n).exponent ≤ 971 := by
    show (n.log2 : ℤ) - 52 ≤ 971
    omega
  have hvalue := value_wholeForm hpos hn
  have hfast : Float.ofScientific n negative k =
      if negative then n.toUInt64.toFloat / Float.exactlyRepresentablePowersOfTen[k]
      else n.toUInt64.toFloat * Float.exactlyRepresentablePowersOfTen[k] := by
    rw [Float.ofScientific, dif_pos ⟨hn, Nat.lt_succ_iff.1 hk⟩]
  rw [hfast, toFloat_eq hpos hn, hpower]
  cases negative with
  | true =>
    refine ofParts_div hform hp hb hmax' hpmax ?_
    rw [hvalue, hpvalue]
    simpa [div_eq_mul_inv] using htakes
  | false =>
    refine ofParts_mul hform hp hb hmax' hpmax ?_ ?_
    · have hfull : 2 ^ 52 ≤ (wholeForm n).mantissa := by
        refine hform.full.resolve_right ?_
        show (n.log2 : ℤ) - 52 ≠ -1074
        omega
      exact hfull.trans (Nat.le_mul_of_pos_right _ hp.pos)
    · rw [hvalue, hpvalue]
      simpa using htakes

theorem unpacked_ofScientific_eq (hmax : b.exponent ≤ 971) {e : ℤ} (htakes : b.Takes (n * 10 ^ e)) :
    UnpackedFloat.ofScientific .binary64 n e = .finite .positive b.mantissa b.exponent hb.pos := by
  have hone : (1 : ℚ) ≤ n := by exact_mod_cast hpos
  have hlarge : ¬ e > 2 ^ Format.binary64.exponentBits := by
    intro hlarge
    have hlt := htakes.lt hb hmax
    have hlarge' : 2048 < e := hlarge
    refine absurd hlt (not_lt.2 ?_)
    calc (2 : ℚ) ^ (1024 : ℤ) ≤ 2 ^ e := zpow_le_zpow_right₀ one_le_two (by omega)
      _ ≤ 10 ^ e := zpow_le_zpow_left₀ (by omega) two_pos.le (by norm_num)
      _ ≤ n * 10 ^ e := le_mul_of_one_le_left (by positivity) hone
  have hsmall : ¬ e < -((2 ^ Format.binary64.exponentBits : ℤ) + n.log2) := by
    intro hsmall
    have hlt := htakes.half_lt hb
    have hsmall' : e < -(2048 + n.log2) := hsmall
    have hn : (n : ℚ) ≤ 2 ^ ((n.log2 : ℤ) + 1) := by
      have : n ≤ 2 ^ (n.log2 + 1) := Nat.lt_log2_self.le
      rw [← Nat.cast_succ, zpow_natCast]
      exact_mod_cast this
    have hten : (10 : ℚ) ^ e ≤ 2 ^ e := ten_zpow_le_of_nonpos (by omega) (by omega)
    refine absurd hlt (not_lt.2 ?_)
    calc (n : ℚ) * 10 ^ e ≤ 2 ^ ((n.log2 : ℤ) + 1) * 2 ^ e := mul_le_mul hn hten (by positivity) (by positivity)
      _ = 2 ^ ((n.log2 : ℤ) + 1 + e) := (zpow_add₀ two_ne_zero _ _).symm
      _ ≤ 2 ^ (-1075 : ℤ) := zpow_le_zpow_right₀ one_le_two (by omega)
  rw [UnpackedFloat.ofScientific, dif_neg hpos.ne', if_neg hlarge, if_neg hsmall]
  split
  · next h =>
    have hpower : (10 : ℚ) ^ e = (10 ^ e.toNat : ℕ) := by
      rw [← Int.toNat_of_nonneg h, zpow_natCast, Int.toNat_natCast]
      push_cast
      rfl
    have hbits : Format.binary64.mantissaBits = 53 := rfl
    rw [hpower] at htakes
    simp only [hbits, Nat.shiftLeft_eq]
    refine mul_eq ?_ hb ?_
    · have htenpos : 0 < 10 ^ e.toNat := by positivity
      calc 2 ^ 52 ≤ n * 2 ^ 53 := by omega
        _ ≤ n * 2 ^ 53 * 10 ^ e.toNat := Nat.le_mul_of_pos_right _ htenpos
    · have hvalue : ((n * 2 ^ 53 : ℕ) : ℚ) * 2 ^ (-(53 : ℕ) : ℤ) = n := by
        rw [zpow_neg, zpow_natCast]
        push_cast
        exact mul_inv_cancel_right₀ (by positivity) _
      rwa [hvalue, zpow_zero, mul_one]
  · next h =>
    have hpower : (10 : ℚ) ^ e = ((10 ^ (-e).toNat : ℕ) : ℚ)⁻¹ := by
      rw [zpow_eq_div, Int.toNat_of_nonpos (by omega), pow_zero, one_div]
      push_cast
      rfl
    rw [hpower] at htakes
    refine div_eq hb ?_
    rwa [zpow_zero, mul_one, mul_one, div_eq_mul_inv]

/-- Both ways in which a natural is scaled give the float that takes the exact value. -/
theorem ofScientific_eq (hmax : b.exponent ≤ 971) (negative : Bool) (k : ℕ)
    (htakes : b.Takes (n * 10 ^ (if negative then -(k : ℤ) else k))) :
    Float.ofScientific n negative k = ofParts .positive b hb.pos := by
  by_cases hfast : n < 2 ^ 53 ∧ k ≤ 22
  · exact ofScientific_small hpos hb negative hfast.1 (Nat.lt_succ_iff.2 hfast.2) htakes
  · rw [Float.ofScientific, dif_neg hfast]
    have he : (if negative then Int.negOfNat k else Int.ofNat k) = if negative then -(k : ℤ) else k := by
      cases negative
      · rfl
      · exact Int.negOfNat_eq
    dsimp only
    rw [he]
    exact congrArg (fun u => Float.ofModel (.pack u)) (unpacked_ofScientific_eq hpos hb hmax htakes)

theorem scaled_eq (hmax : b.exponent ≤ 971) {e : ℤ} (htakes : b.Takes (n * 10 ^ e)) :
    scaled n e = ofParts .positive b hb.pos := by
  obtain ⟨hlow, hhigh⟩ := digits_bounds hpos
  have hten : (0 : ℚ) < 10 ^ e := by positivity
  have hlarge : ¬ 320 < ((digits n).length : ℤ) + e := by
    intro hlarge
    have hvalue : (10 : ℚ) ^ (320 : ℤ) ≤ n * 10 ^ e := by
      calc (10 : ℚ) ^ (320 : ℤ) ≤ 10 ^ (((digits n).length : ℤ) - 1 + e) :=
            zpow_le_zpow_right₀ (by norm_num) (by omega)
        _ = 10 ^ (((digits n).length : ℤ) - 1) * 10 ^ e := zpow_add₀ (by norm_num) _ _
        _ ≤ n * 10 ^ e := mul_le_mul_of_nonneg_right hlow hten.le
    have hpowers : (2 : ℚ) ^ (1024 : ℤ) ≤ 10 ^ (320 : ℤ) := by
      rw [show (1024 : ℤ) = 16 * 64 by norm_num, show (320 : ℤ) = 5 * 64 by norm_num, zpow_mul, zpow_mul]
      exact zpow_le_zpow_left₀ (by norm_num) (by positivity) (by norm_num)
    exact absurd (htakes.lt hb hmax) (not_lt.2 (hpowers.trans hvalue))
  have hsmall : ¬ ((digits n).length : ℤ) + e < -340 := by
    intro hsmall
    have hvalue : (n : ℚ) * 10 ^ e ≤ 10 ^ (-341 : ℤ) := by
      calc (n : ℚ) * 10 ^ e ≤ 10 ^ ((digits n).length : ℤ) * 10 ^ e :=
            mul_le_mul_of_nonneg_right hhigh.le hten.le
        _ = 10 ^ (((digits n).length : ℤ) + e) := (zpow_add₀ (by norm_num) _ _).symm
        _ ≤ 10 ^ (-341 : ℤ) := zpow_le_zpow_right₀ (by norm_num) (by omega)
    have hpowers : (10 : ℚ) ^ (-341 : ℤ) ≤ 2 ^ (-1075 : ℤ) := ten_zpow_le_of_nonpos (by norm_num) (by norm_num)
    exact absurd (htakes.half_lt hb) (not_lt.2 (hvalue.trans hpowers))
  rw [scaled, if_neg hpos.ne']
  simp only [if_neg hlarge, if_neg hsmall]
  split
  · next h =>
    refine ofScientific_eq hpos hb hmax false _ ?_
    rwa [if_neg Bool.false_ne_true, Int.toNat_of_nonneg h]
  · next h =>
    refine ofScientific_eq hpos hb hmax true _ ?_
    rwa [if_pos rfl, Int.toNat_of_nonneg (by omega), neg_neg]

end Scaling

end Scriptorium.Decimal
