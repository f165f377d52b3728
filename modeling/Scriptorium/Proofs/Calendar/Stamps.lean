import Scriptorium.Proofs.Calendar.Days
import Scriptorium.Proofs.Decimal.ReadBack

/-!
# Dates as text without separators

What `readStamp?` takes for a date is said by `Stamped`, field by field (`readStamp?_eq_some_iff`): blanks may
stand before each number, zeros may be left out where a blank tells where a number ends, and a year may have a
sign. Eight digits are read in one way only, the way that `stamp` writes them (`stamped_stamp`,
`Stamped.eq_stamp`).
-/

namespace Scriptorium.Calendar

open Text Decimal

variable {cs ds rest : List Char} {c : Char} {width n : Nat} {year : Int} {d : Date}

/-! ## Numbers -/

/-- A text begins with a number, with blanks before it, and the rest follows. The number has at most so many
digits, and fewer only if no digit follows. -/
def Field (width value : Nat) (cs rest : List Char) : Prop :=
  ∃ blanks ds, cs = blanks ++ (ds ++ rest) ∧ isBlankText blanks = true ∧ ds ≠ [] ∧
    (∀ c ∈ ds, c.isDigit = true) ∧ ds.length ≤ width ∧
      (ds.length < width → ∀ c ∈ rest.head?, c.isDigit = false) ∧ digitsValue ds = value

/-- A text begins with a year, and the rest follows: up to four digits, or any number of them after a sign. -/
def YearField (year : Int) (cs rest : List Char) : Prop :=
  (∃ n : Nat, Field 4 n cs rest ∧ year = n) ∨
    ∃ blanks sign ds, cs = blanks ++ sign :: (ds ++ rest) ∧ isBlankText blanks = true ∧ (sign = '-' ∨ sign = '+') ∧
      ds ≠ [] ∧ (∀ c ∈ ds, c.isDigit = true) ∧ (∀ c ∈ rest.head?, c.isDigit = false) ∧
        year = if sign = '-' then -(digitsValue ds : Int) else digitsValue ds

/-- A text is a date, written as year, month and day. -/
def Stamped (cs : List Char) (d : Date) : Prop :=
  ∃ afterYear afterMonth, YearField d.year cs afterYear ∧ Field 2 d.month afterYear afterMonth ∧
    Field 2 d.day afterMonth []

theorem takeWhile_take (p : Char → Bool) (n : Nat) (cs : List Char) :
    (cs.take n).takeWhile p = (cs.takeWhile p).take n := by
  induction n generalizing cs with
  | zero => simp
  | succ n ih =>
    cases cs with
    | nil => simp
    | cons c cs =>
      rw [List.take_succ_cons, List.takeWhile_cons, List.takeWhile_cons]
      split
      · rw [List.take_succ_cons, ih]
      · rfl

/-- Blanks, and what stands behind them. -/
theorem trimStart_append {blanks : List Char} (hblanks : isBlankText blanks = true)
    (h : ∀ c ∈ rest.head?, isBlank c = false) : trimStart (blanks ++ rest) = rest :=
  dropWhile_of_head? (List.all_eq_true.1 hblanks) h

theorem exists_blanks (cs : List Char) : ∃ blanks, cs = blanks ++ trimStart cs ∧ isBlankText blanks = true :=
  ⟨cs.takeWhile isBlank, List.takeWhile_append_dropWhile.symm,
    List.all_eq_true.2 fun _ hc => List.mem_takeWhile_imp hc⟩

theorem head?_digits (hne : ds ≠ []) (hds : ∀ c ∈ ds, c.isDigit = true) :
    ∀ c ∈ (ds ++ rest).head?, c.isDigit = true := by
  obtain ⟨c, ds, rfl⟩ := List.exists_cons_of_ne_nil hne
  simpa using hds c (by simp)

theorem readField?_eq_some_iff : readField? width cs = some (n, rest) ↔ Field width n cs rest := by
  unfold readField?
  simp only [takeWhile_take]
  constructor
  · intro h
    split_ifs at h with hempty
    obtain ⟨rfl, rfl⟩ := Prod.mk.inj (Option.some.inj h)
    obtain ⟨blanks, hcs, hblanks⟩ := exists_blanks cs
    have hprefix : ((trimStart cs).takeWhile Char.isDigit).take width <+: trimStart cs :=
      (List.take_prefix _ _).trans (List.takeWhile_prefix _)
    have hcut := List.prefix_iff_eq_append.1 hprefix
    refine ⟨blanks, _, by rw [hcut, ← hcs], hblanks, by simpa using hempty,
      fun c hc => List.mem_takeWhile_imp (List.mem_of_mem_take hc), List.length_take_le _ _, fun hshort c hc => ?_, rfl⟩
    -- where digits are missing, the run of digits has ended
    have hwhole : ((trimStart cs).takeWhile Char.isDigit).take width = (trimStart cs).takeWhile Char.isDigit := by
      rw [List.length_take] at hshort
      exact List.take_of_length_le (by omega)
    rw [hwhole] at hc hcut
    rw [List.append_cancel_left (hcut.trans List.takeWhile_append_dropWhile.symm)] at hc
    have hhead := List.head?_dropWhile_not Char.isDigit (trimStart cs)
    rw [Option.mem_def.1 hc] at hhead
    exact hhead
  · rintro ⟨blanks, ds, rfl, hblanks, hne, hds, hlength, hshort, rfl⟩
    have hstart : trimStart (blanks ++ (ds ++ rest)) = ds ++ rest :=
      trimStart_append hblanks fun c hc => isBlank_of_isDigit (head?_digits hne hds c hc)
    have htake : ((ds ++ rest).takeWhile Char.isDigit).take width = ds := by
      rw [List.takeWhile_append_of_pos hds]
      rcases hlength.lt_or_eq with hlt | rfl
      · have hrest : rest.takeWhile Char.isDigit = [] := by
          simpa using takeWhile_of_head? (List.forall_mem_nil _) (hshort hlt)
        rw [hrest, List.append_nil, List.take_of_length_le hlength]
      · simp
    rw [hstart, htake, if_neg (by simpa using hne)]
    simp

theorem readField?_trimStart (width : Nat) (cs : List Char) :
    readField? width (trimStart cs) = readField? width cs := by
  unfold readField?
  rw [trimStart_of_head? (head?_trimStart cs)]

theorem not_isDigit_of_sign (h : c = '-' ∨ c = '+') : c.isDigit = false ∧ isBlank c = false := by
  rcases h with rfl | rfl <;> decide

theorem readField?_of_sign (h : c = '-' ∨ c = '+') : readField? width (c :: cs) = none := by
  have hstart : trimStart (c :: cs) = c :: cs := trimStart_of_head? (by simpa using (not_isDigit_of_sign h).2)
  simp [readField?, hstart, takeWhile_take, (not_isDigit_of_sign h).1]

theorem spanDigits_eq_iff : spanDigits cs = (ds, rest) ↔
    cs = ds ++ rest ∧ (∀ c ∈ ds, c.isDigit = true) ∧ ∀ c ∈ rest.head?, c.isDigit = false := by
  constructor
  · intro h
    obtain ⟨rfl, rfl⟩ := Prod.mk.inj h
    refine ⟨List.takeWhile_append_dropWhile.symm, fun c hc => List.mem_takeWhile_imp hc, fun c hc => ?_⟩
    have hhead := List.head?_dropWhile_not Char.isDigit cs
    rw [Option.mem_def.1 hc] at hhead
    exact hhead
  · rintro ⟨rfl, hds, hrest⟩
    exact spanDigits_append hds hrest

/-- After a sign, the year is all the digits that follow. -/
theorem readYear?_of_sign {sign : Char} {body : List Char} (h : trimStart cs = sign :: body)
    (hsign : sign = '-' ∨ sign = '+') :
    readYear? cs = some (year, rest) ↔ ∃ ds, spanDigits body = (ds, rest) ∧ ds ≠ [] ∧
      year = if sign = '-' then -(digitsValue ds : Int) else digitsValue ds := by
  rw [readYear?, h]
  simp only [if_pos hsign]
  rcases spanDigits body with ⟨ds, after⟩
  constructor
  · intro hread
    simp only [Option.ite_none_left_eq_some, Option.some.injEq, Prod.mk.injEq] at hread
    obtain ⟨hne, rfl, rfl⟩ := hread
    exact ⟨ds, rfl, by simpa using hne, rfl⟩
  · rintro ⟨ds', hspan, hne, rfl⟩
    obtain ⟨rfl, rfl⟩ := Prod.mk.inj hspan
    exact if_neg (by simpa using hne)

/-- Without a sign, the year is a number. -/
theorem readYear?_of_not_sign (h : ∀ c ∈ (trimStart cs).head?, ¬ (c = '-' ∨ c = '+')) :
    readYear? cs = (readField? 4 cs).map fun x => ((x.1 : Int), x.2) := by
  rw [readYear?, ← readField?_trimStart]
  cases hstart : trimStart cs with
  | nil => rfl
  | cons c body =>
    rw [hstart] at h
    exact if_neg (h c rfl)

theorem readYear?_eq_some_iff : readYear? cs = some (year, rest) ↔ YearField year cs rest := by
  have hsigned {blanks ds : List Char} {sign : Char} (h : cs = blanks ++ sign :: (ds ++ rest))
      (hblanks : isBlankText blanks = true) (hsign : sign = '-' ∨ sign = '+') :
      trimStart cs = sign :: (ds ++ rest) := by
    rw [h]
    exact trimStart_append hblanks (by simpa using (not_isDigit_of_sign hsign).2)
  by_cases hsign : ∃ sign body, trimStart cs = sign :: body ∧ (sign = '-' ∨ sign = '+')
  · obtain ⟨sign, body, hstart, hsign⟩ := hsign
    rw [readYear?_of_sign hstart hsign]
    constructor
    · rintro ⟨ds, hspan, hne, hyear⟩
      obtain ⟨blanks, hcs, hblanks⟩ := exists_blanks cs
      obtain ⟨rfl, hds, hrest⟩ := spanDigits_eq_iff.1 hspan
      exact .inr ⟨blanks, sign, ds, hstart ▸ hcs, hblanks, hsign, hne, hds, hrest, hyear⟩
    · rintro (⟨n, hfield, -⟩ | ⟨blanks, sign', ds, hcs, hblanks, hsign', hne, hds, hrest, hyear⟩)
      · have hnone : readField? 4 cs = none := by rw [← readField?_trimStart, hstart, readField?_of_sign hsign]
        cases hnone.symm.trans (readField?_eq_some_iff.2 hfield)
      · obtain ⟨rfl, rfl⟩ := List.cons.inj (hstart.symm.trans (hsigned hcs hblanks hsign'))
        exact ⟨ds, spanDigits_append hds hrest, hne, hyear⟩
  · rw [readYear?_of_not_sign fun c hc hsigns => hsign ?_]
    constructor
    · intro hread
      obtain ⟨⟨n, after⟩, hfield, hpair⟩ := Option.map_eq_some_iff.1 hread
      obtain ⟨rfl, rfl⟩ := Prod.mk.inj hpair
      exact .inl ⟨n, readField?_eq_some_iff.1 hfield, rfl⟩
    · rintro (⟨n, hfield, rfl⟩ | ⟨blanks, sign, ds, hcs, hblanks, hsign', -⟩)
      · rw [readField?_eq_some_iff.2 hfield]
        rfl
      · exact absurd ⟨sign, _, hsigned hcs hblanks hsign', hsign'⟩ hsign
    · obtain ⟨body, hbody⟩ := List.head?_eq_some_iff.1 (Option.mem_def.1 hc)
      exact ⟨c, body, hbody, hsigns⟩

/-- Exactly the dates of the calendar are read, as `Stamped` has them. -/
theorem readStamp?_eq_some_iff : readStamp? cs = some d ↔ Stamped cs d ∧ d.isValid = true := by
  unfold readStamp? Stamped
  simp only [← readYear?_eq_some_iff, ← readField?_eq_some_iff, Option.bind_eq_bind, Option.bind_eq_some_iff,
    Prod.exists]
  constructor
  · rintro ⟨y, afterYear, hyear, m, afterMonth, hmonth, n, rest, hday, h⟩
    split_ifs at h with hvalid
    obtain rfl := Option.some.inj h
    simp only [Bool.and_eq_true, List.isEmpty_iff] at hvalid
    obtain ⟨rfl, hvalid⟩ := hvalid
    exact ⟨⟨afterYear, afterMonth, hyear, hmonth, hday⟩, hvalid⟩
  · rintro ⟨⟨afterYear, afterMonth, hyear, hmonth, hday⟩, hvalid⟩
    exact ⟨_, _, hyear, _, _, hmonth, _, _, hday, by simp [hvalid]⟩

/-! ## Characters -/

/-- A character that a date is written with. -/
def StampChar (c : Char) : Prop := isBlank c = true ∨ c.isDigit = true ∨ c = '-' ∨ c = '+'

theorem Field.stampChar {value : Nat} (h : Field width value cs rest) (hrest : ∀ c ∈ rest, StampChar c) :
    ∀ c ∈ cs, StampChar c := by
  obtain ⟨blanks, ds, rfl, hblanks, -, hds, -⟩ := h
  intro c hc
  rcases List.mem_append.1 hc with hc | hc
  · exact .inl (List.all_eq_true.1 hblanks c hc)
  · exact (List.mem_append.1 hc).elim (fun hc => .inr (.inl (hds c hc))) (hrest c)

theorem YearField.stampChar (h : YearField year cs rest) (hrest : ∀ c ∈ rest, StampChar c) :
    ∀ c ∈ cs, StampChar c := by
  rcases h with ⟨n, h, -⟩ | ⟨blanks, sign, ds, rfl, hblanks, hsign, -, hds, -⟩
  · exact h.stampChar hrest
  · intro c hc
    rcases List.mem_append.1 hc with hc | hc
    · exact .inl (List.all_eq_true.1 hblanks c hc)
    · rcases List.mem_cons.1 hc with rfl | hc
      · exact .inr (.inr hsign)
      · exact (List.mem_append.1 hc).elim (fun hc => .inr (.inl (hds c hc))) (hrest c)

theorem Stamped.stampChar (h : Stamped cs d) : ∀ c ∈ cs, StampChar c := by
  obtain ⟨afterYear, afterMonth, hyear, hmonth, hday⟩ := h
  exact hyear.stampChar (hmonth.stampChar (hday.stampChar (by simp)))

/-! ## Eight digits -/

theorem digitsValue_concat (ds : List Char) (c : Char) :
    digitsValue (ds ++ [c]) = 10 * digitsValue ds + (c.toNat - 48) := by
  simp [digitsValue]

theorem toNat_of_isDigit (h : c.isDigit = true) : 48 ≤ c.toNat ∧ c.toNat ≤ 57 := Char.isDigit_iff_toNat.1 h

theorem digitsValue_lt (hds : ∀ c ∈ ds, c.isDigit = true) : digitsValue ds < 10 ^ ds.length := by
  induction ds using List.reverseRecOn with
  | nil => decide
  | append_singleton ds c ih =>
    have hc := toNat_of_isDigit (hds c (by simp))
    have hbefore := ih fun x hx => hds x (by simp [hx])
    rw [digitsValue_concat, List.length_append, List.length_singleton, pow_succ]
    omega

/-- So many digits are determined by their value. -/
theorem eq_of_digitsValue_eq {ds' : List Char} (hds : ∀ c ∈ ds, c.isDigit = true) (hds' : ∀ c ∈ ds', c.isDigit = true)
    (hlength : ds.length = ds'.length) (h : digitsValue ds = digitsValue ds') : ds = ds' := by
  induction ds using List.reverseRecOn generalizing ds' with
  | nil => exact (List.length_eq_zero_iff.1 hlength.symm).symm
  | append_singleton ds c ih =>
    rcases List.eq_nil_or_concat ds' with rfl | ⟨ds', c', rfl⟩
    · simp at hlength
    · rw [List.concat_eq_append] at hds' hlength h ⊢
      have hc := toNat_of_isDigit (hds c (by simp))
      have hc' := toNat_of_isDigit (hds' c' (by simp))
      rw [digitsValue_concat, digitsValue_concat] at h
      have hlast : c = c' := Char.toNat_inj.1 (by omega)
      have hfront : ds = ds' :=
        ih (fun x hx => hds x (by simp [hx])) (fun x hx => hds' x (by simp [hx])) (by simpa using hlength) (by omega)
      rw [hlast, hfront]

theorem toList_padded (width n : Nat) :
    (padded width n).toList = List.replicate (width - (digits n).length) '0' ++ digits n := by
  rw [padded, String.toList_ofList]

theorem isDigit_of_mem_padded (h : c ∈ (padded width n).toList) : c.isDigit = true := by
  rw [toList_padded, List.mem_append] at h
  rcases h with h | h
  · rw [List.eq_of_mem_replicate h]
    decide
  · exact isDigit_of_mem_digits h

theorem length_padded (hwidth : 0 < width) (h : n < 10 ^ width) : (padded width n).toList.length = width := by
  have hdigits : (digits n).length ≤ width := (Nat.length_toDigits_le_iff (by decide) hwidth).2 h
  rw [toList_padded, List.length_append, List.length_replicate]
  omega

theorem digitsValue_padded (width n : Nat) : digitsValue (padded width n).toList = n := by
  rw [toList_padded, digitsValue_zeros_append]

theorem padded_digitsValue (hne : ds ≠ []) (hds : ∀ c ∈ ds, c.isDigit = true) :
    (padded ds.length (digitsValue ds)).toList = ds :=
  eq_of_digitsValue_eq (fun _ => isDigit_of_mem_padded) hds
    (length_padded (List.length_pos_of_ne_nil hne) (digitsValue_lt hds)) (digitsValue_padded _ _)

theorem field_padded (hwidth : 0 < width) (h : n < 10 ^ width) (rest : List Char) :
    Field width n ((padded width n).toList ++ rest) rest := by
  have hlength := length_padded hwidth h
  have hvalue := digitsValue_padded width n
  have hdigits (c : Char) (hc : c ∈ (padded width n).toList) := isDigit_of_mem_padded hc
  generalize (padded width n).toList = ds at hlength hvalue hdigits
  exact ⟨[], ds, rfl, rfl, List.ne_nil_of_length_pos (by omega), hdigits, hlength.le,
    fun hlt => absurd hlength hlt.ne, hvalue⟩

theorem stamp_of_year (hyear : 0 ≤ d.year ∧ d.year ≤ 9999) :
    (stamp d).toList = (padded 4 d.year.toNat).toList ++ ((padded 2 d.month).toList ++ (padded 2 d.day).toList) := by
  simp [stamp, yearText, hyear]

/-- The text of a date is that date. -/
theorem stamped_stamp (hyear : 0 ≤ d.year ∧ d.year ≤ 9999) (hproper : d.Proper) : Stamped (stamp d).toList d := by
  have hmonth : d.month < 10 ^ 2 := by have := hproper.month_le; omega
  have hday : d.day < 10 ^ 2 := by
    have := hproper.day_le.trans (Date.daysIn_le _ _)
    omega
  have hdayField := field_padded (by decide) hday []
  rw [List.append_nil] at hdayField
  refine ⟨_, _, .inl ⟨d.year.toNat, ?_, by omega⟩, field_padded (by decide) hmonth _, hdayField⟩
  rw [stamp_of_year hyear]
  exact field_padded (by decide) (by omega) _

/-- Among digits only, a number has no blanks before it, and all its digits unless it is the last. -/
theorem Field.digits {value : Nat} (h : Field width value cs rest) (hcs : ∀ c ∈ cs, c.isDigit = true) :
    ∃ ds, cs = ds ++ rest ∧ ds ≠ [] ∧ (∀ c ∈ ds, c.isDigit = true) ∧ (rest ≠ [] → ds.length = width) ∧
      digitsValue ds = value := by
  obtain ⟨blanks, ds, rfl, hblanks, hne, hds, hlength, hshort, hvalue⟩ := h
  obtain rfl : blanks = [] := List.eq_nil_iff_forall_not_mem.2 fun c hc => by
    have hblank := List.all_eq_true.1 hblanks c hc
    rw [isBlank_of_isDigit (hcs c (by simp [hc]))] at hblank
    cases hblank
  refine ⟨ds, rfl, hne, hds, fun hrest => ?_, hvalue⟩
  by_contra hlt
  obtain ⟨c, rest, rfl⟩ := List.exists_cons_of_ne_nil hrest
  have hend := hshort (lt_of_le_of_ne hlength hlt) c rfl
  rw [hcs c (by simp)] at hend
  cases hend

/-- Eight digits are a date of the years 0 to 9999, written as the calendar writes it. -/
theorem Stamped.eq_stamp (h : Stamped cs d) (hcs : ∀ c ∈ cs, c.isDigit = true) (hlength : cs.length = 8) :
    (0 ≤ d.year ∧ d.year ≤ 9999) ∧ cs = (stamp d).toList := by
  obtain ⟨afterYear, afterMonth, hyear, hmonth, hday⟩ := h
  rcases hyear with ⟨n, hyear, hn⟩ | ⟨blanks, sign, ds, rfl, -, hsign, -⟩
  swap
  · have hdigit := hcs sign (by simp)
    rw [(not_isDigit_of_sign hsign).1] at hdigit
    cases hdigit
  obtain ⟨ys, rfl, hysne, hys, hyslength, hysvalue⟩ := hyear.digits hcs
  obtain ⟨ms, rfl, hmsne, hms, hmslength, hmsvalue⟩ := hmonth.digits fun c hc => hcs c (by simp [hc])
  obtain ⟨ds, rfl, hdsne, hds, -, hdsvalue⟩ := hday.digits fun c hc => hcs c (by simp [hc])
  have hfour : ys.length = 4 := hyslength (by simp [hmsne])
  have htwo : ms.length = 2 := hmslength (by simp [hdsne])
  have hlast : ds.length = 2 := by
    simp only [List.length_append, List.length_nil] at hlength
    omega
  have hbound : n < 10 ^ 4 := hysvalue ▸ hfour ▸ digitsValue_lt hys
  have hrange : 0 ≤ d.year ∧ d.year ≤ 9999 := by omega
  refine ⟨hrange, ?_⟩
  rw [stamp_of_year hrange, hn, Int.toNat_natCast, ← hysvalue, ← hmsvalue, ← hdsvalue, ← hfour,
    padded_digitsValue hysne hys, ← htwo, padded_digitsValue hmsne hms, htwo, ← hlast, padded_digitsValue hdsne hds,
    List.append_nil]

end Scriptorium.Calendar
