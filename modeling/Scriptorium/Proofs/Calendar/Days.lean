import Mathlib.Logic.Function.Iterate
import Mathlib.Order.Monotone.Basic
import Scriptorium.Calendar.Date

/-!
# Days one after another

Serial numbers count days: the next day has the next number (`serial_next`), and no two days have the same
(`serial_injective`). So the day so many days before another can be found by counting on from it
(`iterate_next_eq_iff`), and the calendar does not reach back far enough if and only if no day of it comes to
the other one by so many steps (`daysBefore?_eq_none_iff`).
-/

namespace Scriptorium.Calendar.Date

variable {d d' today : Date}

/-- A month of the year and a day of that month. -/
structure Proper (d : Date) : Prop where
  one_le_month : 1 ≤ d.month
  month_le : d.month ≤ 12
  one_le_day : 1 ≤ d.day
  day_le : d.day ≤ daysIn d.year d.month

/-- The day after. -/
def next (d : Date) : Date :=
  if d.day < daysIn d.year d.month then ⟨d.year, d.month, d.day + 1⟩
  else if d.month < 12 then ⟨d.year, d.month + 1, 1⟩
  else ⟨d.year + 1, 1, 1⟩

theorem isValid_iff : d.isValid = true ↔ firstYear ≤ d.year ∧ d.year ≤ lastYear ∧ d.Proper := by
  simp only [isValid, Bool.and_eq_true, decide_eq_true_eq]
  exact ⟨fun ⟨⟨⟨⟨⟨hfirst, hlast⟩, hmonth⟩, htwelve⟩, hday⟩, hlength⟩ => ⟨hfirst, hlast, hmonth, htwelve, hday, hlength⟩,
    fun ⟨hfirst, hlast, hmonth, htwelve, hday, hlength⟩ => ⟨⟨⟨⟨⟨hfirst, hlast⟩, hmonth⟩, htwelve⟩, hday⟩, hlength⟩⟩

theorem one_le_daysIn (y : Int) (month : Nat) : 1 ≤ daysIn y month := by
  unfold daysIn
  split <;> try split
  all_goals omega

theorem daysIn_le (y : Int) (month : Nat) : daysIn y month ≤ 31 := by
  unfold daysIn
  split <;> try split
  all_goals omega

theorem proper_next (h : d.Proper) : d.next.Proper := by
  unfold next
  split_ifs with hday hmonth
  · exact ⟨h.one_le_month, h.month_le, Nat.succ_pos _, hday⟩
  · exact ⟨Nat.succ_pos _, hmonth, le_rfl, one_le_daysIn _ _⟩
  · exact ⟨le_rfl, (by decide : 1 ≤ 12), le_rfl, one_le_daysIn _ _⟩

/-! ## Serial numbers -/

/-- The number of the last day before a year. -/
def beforeYear (y : Int) : Int := 365 * (y - 1) + (y - 1) / 4 - (y - 1) / 100 + (y - 1) / 400

theorem serial_eq (d : Date) : d.serial = beforeYear d.year + daysBeforeMonth d.year d.month + d.day := rfl

theorem daysBeforeMonth_succ (y : Int) {month : Nat} (h : 1 ≤ month) :
    daysBeforeMonth y (month + 1) = daysBeforeMonth y month + daysIn y month := by
  obtain ⟨m, rfl⟩ := Nat.exists_eq_add_of_le' h
  simp [daysBeforeMonth, List.range_succ, List.foldl_append]

theorem daysBeforeMonth_mono (y : Int) : Monotone (daysBeforeMonth y) := by
  refine monotone_nat_of_le_succ fun month => ?_
  rcases Nat.eq_zero_or_pos month with rfl | hpos
  · exact le_rfl
  · rw [daysBeforeMonth_succ y hpos]
    exact Nat.le_add_right _ _

theorem daysBeforeMonth_thirteen (y : Int) :
    daysBeforeMonth y 13 = if isLeapYear y then 366 else 365 := by
  simp only [daysBeforeMonth, daysIn, List.range_succ]
  cases isLeapYear y <;> rfl

theorem beforeYear_succ (y : Int) : beforeYear (y + 1) = beforeYear y + daysBeforeMonth y 13 := by
  have hleap : isLeapYear y = true ↔ y % 4 = 0 ∧ (y % 100 ≠ 0 ∨ y % 400 = 0) := by
    simp [isLeapYear]
  rw [daysBeforeMonth_thirteen]
  unfold beforeYear
  split_ifs with h
  · have := hleap.1 h
    omega
  · have := mt hleap.2 h
    omega

theorem beforeYear_mono {y y' : Int} (h : y ≤ y') : beforeYear y ≤ beforeYear y' := by
  unfold beforeYear
  omega

theorem serial_next (h : d.Proper) : d.next.serial = d.serial + 1 := by
  have hlast := h.day_le
  unfold next
  split_ifs with hday hmonth
  · simp only [serial_eq]
    omega
  · simp only [serial_eq, daysBeforeMonth_succ d.year h.one_le_month]
    omega
  · have hmonth : d.month = 12 := by have := h.month_le; omega
    have hone : daysBeforeMonth (d.year + 1) 1 = 0 := rfl
    rw [hmonth] at hday hlast
    simp only [serial_eq, beforeYear_succ, daysBeforeMonth_succ d.year (show 1 ≤ 12 by decide), hmonth, hone]
    omega

theorem proper_iterate (h : d.Proper) (n : Nat) : (next^[n] d).Proper := by
  induction n with
  | zero => exact h
  | succ n ih => rw [Function.iterate_succ_apply']; exact proper_next ih

theorem serial_iterate (h : d.Proper) (n : Nat) : (next^[n] d).serial = d.serial + n := by
  induction n with
  | zero => simp
  | succ n ih =>
    rw [Function.iterate_succ_apply', serial_next (proper_iterate h n), ih]
    omega

/-! ## Order -/

/-- A proper date lies within its year. -/
theorem serial_bounds (h : d.Proper) : beforeYear d.year < d.serial ∧ d.serial ≤ beforeYear (d.year + 1) := by
  have hlast := h.day_le
  have hfirst := h.one_le_day
  have hmonth := daysBeforeMonth_mono d.year (show d.month + 1 ≤ 13 by have := h.month_le; omega)
  rw [daysBeforeMonth_succ d.year h.one_le_month] at hmonth
  rw [beforeYear_succ, serial_eq]
  omega

theorem year_le_of_serial_le (h : d.Proper) (h' : d'.Proper) (hle : d.serial ≤ d'.serial) : d.year ≤ d'.year := by
  by_contra hlt
  have hmono := beforeYear_mono (show d'.year + 1 ≤ d.year by omega)
  have hbounds := serial_bounds h
  have hbounds' := serial_bounds h'
  omega

/-- In one year, a later month has later days. -/
theorem month_le_of_serial_le (h : d.Proper) (h' : d'.Proper) (hyear : d.year = d'.year)
    (hle : d.serial ≤ d'.serial) : d.month ≤ d'.month := by
  by_contra hlt
  have hmono := daysBeforeMonth_mono d.year (show d'.month + 1 ≤ d.month by omega)
  have hlast := h'.day_le
  have hfirst := h.one_le_day
  rw [hyear, daysBeforeMonth_succ d'.year h'.one_le_month] at hmono
  rw [serial_eq, serial_eq, hyear] at hle
  omega

theorem serial_injective (h : d.Proper) (h' : d'.Proper) (heq : d.serial = d'.serial) : d = d' := by
  have hyear := le_antisymm (year_le_of_serial_le h h' heq.le) (year_le_of_serial_le h' h heq.ge)
  have hmonth := le_antisymm (month_le_of_serial_le h h' hyear heq.le)
    (month_le_of_serial_le h' h hyear.symm heq.ge)
  rw [serial_eq, serial_eq, hyear, hmonth] at heq
  obtain ⟨y, m, n⟩ := d
  obtain ⟨y', m', n'⟩ := d'
  simp only at hyear hmonth heq
  simp only [Date.mk.injEq, hyear, hmonth, true_and]
  omega

theorem iterate_next_eq_iff (h : d.Proper) (htoday : today.Proper) (n : Nat) :
    next^[n] d = today ↔ d.serial + n = today.serial := by
  rw [← serial_iterate h n]
  exact ⟨congrArg serial, serial_injective (proper_iterate h n) htoday⟩

/-- The earlier of two days comes to the later one by counting on. -/
theorem serial_lt_iff (h : d.Proper) (htoday : today.Proper) (n : Nat) :
    d.serial < today.serial - n ↔ ∃ k, n < k ∧ next^[k] d = today := by
  simp only [iterate_next_eq_iff h htoday]
  constructor
  · exact fun hlt => ⟨(today.serial - d.serial).toNat, by omega, by omega⟩
  · rintro ⟨k, hk, hcount⟩
    omega

/-! ## The first day -/

theorem first_proper : first.Proper := ⟨by decide, by decide, by decide, by decide⟩

theorem first_serial_le (h : d.isValid = true) : first.serial ≤ d.serial := by
  obtain ⟨hfirst, -, hproper⟩ := isValid_iff.1 h
  have hmono := beforeYear_mono hfirst
  have hbounds := serial_bounds hproper
  have hserial : first.serial = beforeYear firstYear + 1 := rfl
  omega

/-- The calendar reaches back so many days if and only if one of its days comes to the date by as many steps. -/
theorem daysBefore?_eq_none_iff (htoday : today.isValid = true) (n : Nat) :
    today.daysBefore? n = none ↔ ¬ ∃ d : Date, d.isValid = true ∧ next^[n] d = today := by
  obtain ⟨-, hlast, hproper⟩ := isValid_iff.1 htoday
  unfold daysBefore?
  split_ifs with h
  · refine iff_of_false nofun (not_not.2 ?_)
    -- counting on from the first day comes to the day that is looked for
    let d := next^[(today.serial - n - first.serial).toNat] first
    have hd : d.Proper := proper_iterate first_proper _
    have hserial : d.serial + n = today.serial := by
      have hcount : d.serial = first.serial + (today.serial - n - first.serial).toNat := serial_iterate first_proper _
      omega
    refine ⟨d, isValid_iff.2 ⟨year_le_of_serial_le first_proper hd ?_, ?_, hd⟩,
      (iterate_next_eq_iff hd hproper n).2 hserial⟩
    · omega
    · exact (year_le_of_serial_le hd hproper (by omega)).trans hlast
  · refine iff_of_true rfl ?_
    rintro ⟨d, hd, hcount⟩
    have hfirst := first_serial_le hd
    have hserial := (iterate_next_eq_iff (isValid_iff.1 hd).2.2 hproper n).1 hcount
    omega

end Scriptorium.Calendar.Date
