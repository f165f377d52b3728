import Mathlib.Data.Nat.Prime.Basic
import Mathlib.Tactic.NormNum
import Scriptorium.Numbers.Integers

/-!
# Prime numbers by trial division

The loop over odd divisors tells whether one of them divides the number (`exists_noDivisorFrom`), and a number is prime
if none does up to its square root (`prime_iff_of_odd`). For the greatest number the loop does not stop there, since no
square exceeds it in 64 bits. But that number is not prime, and being odd it is met as a divisor of itself before there
are no more odd numbers. So the loop always ends with an answer, and it is the right one (`isPrime_iff`).
-/

namespace Scriptorium.Numbers

variable {n d : Int64}

/-! ## One step -/

theorem toInt_two : (2 : Int64).toInt = 2 := rfl

theorem toInt_three : (3 : Int64).toInt = 3 := rfl

/-- A saturated square is compared as the square is, unless the number is the greatest. -/
theorem multiplySaturating_self_le_iff (hd : 0 ≤ d.toInt) :
    multiplySaturating d d ≤ n ↔ n = Int64.maxValue ∨ d.toInt * d.toInt ≤ n.toInt := by
  have hsquare : 0 ≤ d.toInt * d.toInt := mul_nonneg hd hd
  have hlt := n.toInt_lt
  rw [Int64.le_iff_toInt_le, ← Int64.toInt_inj, Int64.toInt_maxValue, multiplySaturating, Int64.ofIntClamp,
    dif_pos (by rw [Int64.toInt_minValue]; omega)]
  split
  next hfits =>
    rw [Int64.toInt_ofIntLE]
    rw [Int64.toInt_maxValue] at hfits
    omega
  next hbeyond =>
    rw [Int64.toInt_maxValue] at hbeyond ⊢
    omega

/-- Dividing by a positive number goes through. -/
theorem remainder_of_pos (hd : 0 < d.toInt) (n : Int64) : remainder n d = .ok (n % d) := by
  have hzero : d ≠ 0 := by
    rintro rfl
    exact absurd hd (by decide)
  have hminus : d ≠ -1 := by
    rintro rfl
    exact absurd hd (by decide)
  rw [remainder, if_neg hzero, if_neg fun h => hminus h.2]

theorem mod_eq_zero_iff_dvd (n d : Int64) : n % d = 0 ↔ d.toInt ∣ n.toInt := by
  rw [← Int64.toInt_inj, Int64.toInt_mod, Int64.toInt_zero, Int.dvd_iff_tmod_eq_zero]

/-- Behind an odd number that is not the greatest there are two more. -/
theorem add_two_of_odd (hodd : d.toInt % 2 = 1) (hne : d ≠ Int64.maxValue) :
    ∃ next, add d 2 = .ok next ∧ next.toInt = d.toInt + 2 := by
  rw [ne_eq, ← Int64.toInt_inj, Int64.toInt_maxValue] at hne
  have hlow := d.minValue_le_toInt
  have hlt := d.toInt_lt
  obtain ⟨next, hnext, hsum⟩ := exists_fit? (n := d.toInt + 2) (by omega) (by rw [Int64.toInt_maxValue]; omega)
  exact ⟨next, by rw [add, toInt_two, fitOr, hnext], hsum⟩

/-! ## The loop -/

/-- The greatest number divides itself, so no divisor that is looked at and does not divide is the greatest. -/
theorem ne_maxValue_of_not_dvd (hle : multiplySaturating d d ≤ n) (hpos : 0 < d.toInt) (hdvd : ¬d.toInt ∣ n.toInt) :
    d ≠ Int64.maxValue := by
  rintro rfl
  obtain rfl | hsquare := (multiplySaturating_self_le_iff hpos.le).1 hle
  · exact hdvd dvd_rfl
  · have hlt := n.toInt_lt
    rw [Int64.toInt_maxValue] at hsquare
    omega

/-- From an odd number on, the loop ends and tells whether an odd number divides whose square does not exceed. -/
theorem exists_noDivisorFrom (hpos : 0 < d.toInt) (hodd : d.toInt % 2 = 1) :
    ∃ b, noDivisorFrom n d = .ok b ∧
      (b = true ↔ n ≠ Int64.maxValue ∧
        ∀ e : ℤ, d.toInt ≤ e → e % 2 = 1 → e * e ≤ n.toInt → ¬e ∣ n.toInt) := by
  fun_induction noDivisorFrom n d with
  | case1 d hle f hr =>
    rw [remainder_of_pos hpos] at hr
    cases hr
  | case2 d hle hr =>
    rw [remainder_of_pos hpos, Except.ok.injEq, mod_eq_zero_iff_dvd] at hr
    refine ⟨false, rfl, iff_of_false Bool.false_ne_true ?_⟩
    rintro ⟨hmax, hnone⟩
    have hsquare := ((multiplySaturating_self_le_iff hpos.le).1 hle).resolve_left hmax
    exact hnone d.toInt le_rfl hodd hsquare hr
  | case3 d hle r hr hne next hnext ih =>
    rw [remainder_of_pos hpos] at hr
    cases hr
    rw [mod_eq_zero_iff_dvd] at hne
    obtain ⟨next', hnext', hsum⟩ := add_two_of_odd hodd (ne_maxValue_of_not_dvd hle hpos hne)
    obtain rfl : next = next' := Except.ok.inj (hnext.symm.trans hnext')
    obtain ⟨b, hb, hiff⟩ := ih (by omega) (by omega)
    refine ⟨b, hb, hiff.trans (and_congr_right fun _ => ⟨fun h e he => ?_, fun h e he => h e (by omega)⟩)⟩
    intro heodd hsquare hedvd
    obtain heq | hlt : e = d.toInt ∨ next.toInt ≤ e := by omega
    · exact hne (heq ▸ hedvd)
    · exact h e hlt heodd hsquare hedvd
  | case4 d hle r hr hne f hnext =>
    rw [remainder_of_pos hpos] at hr
    cases hr
    rw [mod_eq_zero_iff_dvd] at hne
    obtain ⟨next', hnext', -⟩ := add_two_of_odd hodd (ne_maxValue_of_not_dvd hle hpos hne)
    rw [hnext] at hnext'
    cases hnext'
  | case5 d hlt =>
    rw [multiplySaturating_self_le_iff hpos.le, not_or] at hlt
    refine ⟨true, rfl, iff_of_true rfl ⟨hlt.1, fun e he _ hsquare => absurd hsquare ?_⟩⟩
    have := mul_self_le_mul_self hpos.le he
    omega

/-! ## Prime numbers -/

/-- The greatest number is divided by seven. -/
theorem not_prime_maxValue : ¬Nat.Prime (2 ^ 63 - 1) :=
  Nat.not_prime_of_dvd_of_lt (by decide : 7 ∣ 2 ^ 63 - 1) (by decide) (by decide)

/-- An odd number is prime if no odd number from three on, up to its square root, divides it. -/
theorem prime_iff_of_odd {m : ℕ} (hodd : m % 2 = 1) (hm : 3 ≤ m) :
    m.Prime ↔ ∀ e : ℤ, 3 ≤ e → e % 2 = 1 → e * e ≤ m → ¬e ∣ m := by
  rw [Nat.prime_def_le_sqrt, and_iff_right (by omega)]
  constructor
  · intro h e he _ hsquare hdvd
    lift e to ℕ using by omega
    exact h e (by omega) (Nat.le_sqrt.2 (by exact_mod_cast hsquare)) (by exact_mod_cast hdvd)
  · intro h k hk hsqrt hdvd
    have hkodd : k % 2 = 1 := by
      by_contra heven
      have : 2 ∣ m := (Nat.dvd_of_mod_eq_zero (by omega)).trans hdvd
      omega
    exact h k (by omega) (by omega) (by exact_mod_cast Nat.le_sqrt.1 hsqrt) (by exact_mod_cast hdvd)

theorem prime_iff_of_even {m : ℕ} (heven : 2 ∣ m) : m.Prime ↔ m = 2 := by
  refine ⟨fun hp => ?_, fun htwo => htwo ▸ Nat.prime_two⟩
  exact ((Nat.prime_dvd_prime_iff_eq Nat.prime_two hp).1 heven).symm

theorem exists_trialDivision (n : Int64) :
    ∃ b, trialDivision n = .ok b ∧ (b = true ↔ ∃ p : ℕ, p.Prime ∧ n.toInt = p) := by
  unfold trialDivision
  by_cases hsmall : n < 2
  · refine ⟨false, if_pos hsmall, iff_of_false Bool.false_ne_true ?_⟩
    rintro ⟨p, hp, hn⟩
    rw [Int64.lt_iff_toInt_lt, hn, toInt_two] at hsmall
    have := hp.two_le
    omega
  · rw [if_neg hsmall]
    rw [Int64.lt_iff_toInt_lt, toInt_two] at hsmall
    obtain ⟨m, hm⟩ := Int.eq_ofNat_of_zero_le (by omega : 0 ≤ n.toInt)
    have hprime : (∃ p : ℕ, p.Prime ∧ n.toInt = p) ↔ m.Prime := by simp [hm]
    have hdvd := mod_eq_zero_iff_dvd n 2
    rw [toInt_two, hm] at hdvd
    simp only [hprime, remainder_of_pos (d := 2) (by decide), bind, Except.bind]
    split_ifs with hzero
    · refine ⟨n == 2, rfl, ?_⟩
      rw [prime_iff_of_even (by exact_mod_cast hdvd.1 hzero), beq_iff_eq, ← Int64.toInt_inj, hm, toInt_two]
      exact Nat.cast_inj (n := 2)
    · have hodd : m % 2 = 1 := by
        have : ¬(2 : ℤ) ∣ m := fun h => hzero (hdvd.2 h)
        omega
      obtain ⟨b, hb, hloop⟩ := exists_noDivisorFrom (n := n) (d := 3) (by decide) (by decide)
      refine ⟨b, hb, hloop.trans ?_⟩
      rw [toInt_three, hm, ← prime_iff_of_odd hodd (by omega)]
      refine and_iff_right_of_imp ?_
      rintro hp rfl
      rw [Int64.toInt_maxValue] at hm
      exact not_prime_maxValue ((show m = 2 ^ 63 - 1 by omega) ▸ hp)

/-- Trial division always ends with an answer, also for the greatest numbers, and the answer tells exactly the prime
numbers. -/
theorem isPrime_iff (n : Int64) :
    trialDivision n = .ok (isPrime n) ∧ (isPrime n = true ↔ ∃ p : ℕ, p.Prime ∧ n.toInt = p) := by
  obtain ⟨b, hb, hiff⟩ := exists_trialDivision n
  obtain rfl : isPrime n = b := by
    rw [isPrime, hb]
    cases b <;> rfl
  exact ⟨hb, hiff⟩

end Scriptorium.Numbers
