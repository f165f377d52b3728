import Scriptorium.Proofs.Decimal.ShortestDigits
import Scriptorium.Proofs.Json.Scalars
import Scriptorium.Proofs.Text.Trim

/-!
# Numbers read back

Digits that are written without an exponent are read as the float that takes their exact value. So every finite
float is read back from its shortest text, to the sign of its zero (`readFloat?_shortestText`), and every whole
number that fits in 64 bits is read as a finite float (`exists_readFloat?_of_readInt?`).
-/

namespace Scriptorium.Decimal

open Text Float.Model Float.Model.UnpackedFloat

variable {b : Binary} {d : Scaled} {x : Float} {cs ds whole fraction body rest : List Char} {c : Char} {n : ℕ}

/-! ## Signs -/

theorem neg_ofZero : -ofZero .positive = ofZero .negative := by
  refine eq_of_bitsOf ?_
  decide +kernel

theorem neg_ofParts (hb : b.Canonical) (hmax : b.exponent ≤ 971) :
    -ofParts .positive b hb.pos = ofParts .negative b hb.pos := by
  show Float.ofModel (.pack (UnpackedFloat.neg (ofParts .positive b hb.pos).toModel.unpack)) = _
  rw [unpack_ofParts .positive hb hmax]
  rfl

theorem isFinite_ofParts (s : Sign) (hb : b.Canonical) (hmax : b.exponent ≤ 971) :
    (ofParts s b hb.pos).isFinite = true := by
  show UnpackedFloat.isFinite (ofParts s b hb.pos).toModel.unpack = true
  rw [unpack_ofParts s hb hmax]
  rfl

theorem not_isNaN_of_isFinite (h : x.isFinite = true) : x.isNaN = false ∧ x.isInf = false := by
  change UnpackedFloat.isFinite x.toModel.unpack = true at h
  show UnpackedFloat.isNaN x.toModel.unpack = false ∧ UnpackedFloat.isInf x.toModel.unpack = false
  cases hunpack : x.toModel.unpack with
  | notANumber => rw [hunpack] at h; cases h
  | infinity s => rw [hunpack] at h; cases h
  | zero s => exact ⟨rfl, rfl⟩
  | finite s m e hm => exact ⟨rfl, rfl⟩

/-! ## Digits -/

theorem isDigit_of_mem_digits (h : c ∈ digits n) : c.isDigit = true :=
  Nat.isDigit_of_mem_toDigits (by decide) (by decide) h

theorem digits_ne_nil (n : ℕ) : digits n ≠ [] := Nat.toDigits_ne_nil

theorem digitsValue_eq (ds : List Char) : digitsValue ds = Nat.ofDigitChars 10 ds 0 := rfl

@[simp] theorem digitsValue_digits (n : ℕ) : digitsValue (digits n) = n := Nat.ofDigitChars_ten_toDigits

theorem digitsValue_append_zeros (n k : ℕ) : digitsValue (digits n ++ List.replicate k '0') = 10 ^ k * n := by
  rw [digitsValue_eq, Nat.ofDigitChars_append, Nat.ofDigitChars_replicate_zero, ← digitsValue_eq,
    digitsValue_digits]

theorem digitsValue_zeros_append (n k : ℕ) : digitsValue (List.replicate k '0' ++ digits n) = n := by
  rw [digitsValue_eq, Nat.ofDigitChars_append, Nat.ofDigitChars_replicate_zero, mul_zero, ← digitsValue_eq,
    digitsValue_digits]

theorem spanDigits_self (hds : ∀ c ∈ ds, c.isDigit = true) : spanDigits ds = (ds, []) := by
  have hspan : spanDigits (ds ++ []) = (ds, []) := spanDigits_append hds (by simp)
  rwa [List.append_nil] at hspan

theorem readMagnitude?_digits (hne : ds ≠ []) (hds : ∀ c ∈ ds, c.isDigit = true) :
    readMagnitude? ds = some (scaled (digitsValue ds) 0) := by
  have hempty : ds.isEmpty = false := by simpa using hne
  rw [readMagnitude?, spanDigits_self hds]
  simp [hempty, readExponent?]

theorem readMagnitude?_pointed (hne : whole ≠ []) (hwhole : ∀ c ∈ whole, c.isDigit = true)
    (hfraction : ∀ c ∈ fraction, c.isDigit = true) :
    readMagnitude? (whole ++ '.' :: fraction) =
      some (scaled (digitsValue (whole ++ fraction)) (-fraction.length)) := by
  have hempty : whole.isEmpty = false := by simpa using hne
  have hspan : spanDigits (whole ++ '.' :: fraction) = (whole, '.' :: fraction) :=
    spanDigits_append hwhole (by simp)
  rw [readMagnitude?, hspan]
  simp [spanDigits_self hfraction, hempty, readExponent?]

theorem isDigit_of_mem_zeros {k : ℕ} (h : c ∈ List.replicate k '0') : c.isDigit = true := by
  rw [List.eq_of_mem_replicate h]
  rfl

theorem readMagnitude?_zeros (n k : ℕ) :
    readMagnitude? (digits n ++ List.replicate k '0') = some (scaled (10 ^ k * n) 0) := by
  rw [← digitsValue_append_zeros]
  refine readMagnitude?_digits (by simp [digits_ne_nil]) fun c hc => ?_
  exact (List.mem_append.1 hc).elim isDigit_of_mem_digits isDigit_of_mem_zeros

/-- A point between digits. -/
theorem readMagnitude?_point {k : ℕ} (h : k < (digits n).length) :
    readMagnitude? ((digits n).take ((digits n).length - k) ++ '.' :: (digits n).drop ((digits n).length - k)) =
      some (scaled n (-k)) := by
  have hlength : ((digits n).drop ((digits n).length - k)).length = k := by
    rw [List.length_drop]
    omega
  have hne : (digits n).take ((digits n).length - k) ≠ [] := by
    rw [← List.length_pos_iff, List.length_take]
    omega
  rw [readMagnitude?_pointed hne (fun c hc => isDigit_of_mem_digits (List.mem_of_mem_take hc))
    fun c hc => isDigit_of_mem_digits (List.mem_of_mem_drop hc), List.take_append_drop, digitsValue_digits, hlength]

/-- A point in front of all digits. -/
theorem readMagnitude?_point_zeros {k : ℕ} (h : (digits n).length ≤ k) :
    readMagnitude? ('0' :: '.' :: (List.replicate (k - (digits n).length) '0' ++ digits n)) =
      some (scaled n (-k)) := by
  obtain ⟨zeros, hzeros⟩ : ∃ zeros, k - (digits n).length = zeros := ⟨_, rfl⟩
  have hlength : (List.replicate zeros '0' ++ digits n).length = k := by
    rw [List.length_append, List.length_replicate]
    omega
  have hvalue : digitsValue (['0'] ++ (List.replicate zeros '0' ++ digits n)) = n :=
    digitsValue_zeros_append n (zeros + 1)
  have hread := @readMagnitude?_pointed ['0'] (List.replicate zeros '0' ++ digits n) (by simp) (by simp)
    fun c hc => (List.mem_append.1 hc).elim isDigit_of_mem_zeros isDigit_of_mem_digits
  rw [hvalue, hlength] at hread
  rw [hzeros]
  exact hread

/-- A decimal without an exponent is read as its digits, scaled to its value. -/
theorem readMagnitude?_positional (hpos : 0 < d.digits) :
    ∃ n e, readMagnitude? d.positional = some (scaled n e) ∧ 0 < n ∧ (n : ℚ) * 10 ^ e = d.value := by
  rw [Scaled.positional]
  split
  · next he =>
    rw [if_neg hpos.ne']
    refine ⟨_, _, readMagnitude?_zeros _ _, by positivity, ?_⟩
    rw [Scaled.value, zpow_zero, mul_one]
    conv_rhs => rw [← Int.toNat_of_nonneg he, zpow_natCast]
    push_cast
    exact mul_comm _ _
  · next he =>
    obtain ⟨k, hk⟩ : ∃ k, (-d.exponent).toNat = k := ⟨_, rfl⟩
    have hexponent : d.exponent = -k := by omega
    refine ⟨d.digits, d.exponent, ?_, hpos, rfl⟩
    simp only [hk]
    rw [hexponent]
    split
    · next hshort => exact readMagnitude?_point hshort
    · next hlong => exact readMagnitude?_point_zeros (Nat.le_of_not_lt hlong)

/-! ## Texts of digits and points -/

/-- Digits and points only. -/
def Plain (cs : List Char) : Prop := ∀ c ∈ cs, c.isDigit = true ∨ c = '.'

theorem toLower_ne (h : c.isDigit = true ∨ c = '.') : c.toLower ≠ 'n' := by
  rcases h with h | rfl
  · have hlower : c.toLower = c := by
      simp only [Char.isDigit, Bool.and_eq_true, decide_eq_true_eq] at h
      rw [Char.toLower, dif_neg]
      exact fun hupper => absurd (UInt32.le_trans hupper.1 h.2) (by decide)
    rw [hlower]
    rintro rfl
    cases h
  · decide

theorem Plain.lower_ne (h : Plain cs) {word : String} (hword : 'n' ∈ word.toList) :
    String.ofList (cs.map Char.toLower) ≠ word := by
  rintro rfl
  rw [String.toList_ofList] at hword
  obtain ⟨c, hc, hlower⟩ := List.mem_map.1 hword
  exact toLower_ne (h c hc) hlower

theorem Plain.spanSign (h : Plain cs) : spanSign cs = (false, cs) := by
  rw [Decimal.spanSign.eq_def]
  split
  · exact absurd (h '-' (by simp)) (by decide)
  · exact absurd (h '+' (by simp)) (by decide)
  · rfl

theorem readFloat?_of_spanSign {negative : Bool} (hspan : spanSign cs = (negative, body)) (h : Plain body) :
    readFloat? cs = (readMagnitude? body).map fun x => if negative then -x else x := by
  have hwords : ¬ (String.ofList (body.map Char.toLower) = "inf" ∨
      String.ofList (body.map Char.toLower) = "infinity") := by
    rintro (heq | heq)
    · exact h.lower_ne (by decide) heq
    · exact h.lower_ne (by decide) heq
  have hnan : String.ofList (body.map Char.toLower) ≠ "nan" := h.lower_ne (by decide)
  rw [readFloat?, hspan]
  simp only [if_neg hwords, if_neg hnan]

theorem plain_positional (d : Scaled) : Plain d.positional := by
  intro c hc
  rw [Scaled.positional] at hc
  split at hc
  · split at hc
    · rw [List.mem_singleton.1 hc]
      decide
    · rcases List.mem_append.1 hc with hc | hc
      · exact .inl (isDigit_of_mem_digits hc)
      · exact .inl (isDigit_of_mem_zeros hc)
  · dsimp only at hc
    split at hc
    · rcases List.mem_append.1 hc with hc | hc
      · exact .inl (isDigit_of_mem_digits (List.mem_of_mem_take hc))
      · rcases List.mem_cons.1 hc with rfl | hc
        · exact .inr rfl
        · exact .inl (isDigit_of_mem_digits (List.mem_of_mem_drop hc))
    · simp only [List.mem_cons, List.mem_append, List.mem_replicate] at hc
      rcases hc with rfl | rfl | ⟨-, rfl⟩ | hc
      · decide
      · decide
      · decide
      · exact .inl (isDigit_of_mem_digits hc)

/-! ## Shortest texts -/

theorem readMagnitude?_shortest (hnan : x.isNaN = false) (hinf : x.isInf = false) :
    ∃ y, readMagnitude? ((decode x).shortest .upper).positional = some y ∧
      (if isNegative x then -y else y) = x := by
  rcases finite_cases hnan hinf with ⟨hzero, heq⟩ | ⟨hb, hmax, heq⟩
  · refine ⟨ofZero .positive, ?_, ?_⟩
    · have hshortest : (decode x).shortest .upper = ⟨0, 0⟩ := by rw [Binary.shortest, if_pos hzero]
      have hscaled : scaled 0 0 = ofZero .positive := eq_of_bitsOf (by decide +kernel)
      have hread : readMagnitude? ['0'] = some (scaled 0 0) :=
        readMagnitude?_digits (by simp) (by simp)
      rw [hshortest, ← hscaled]
      exact hread
    · rw [neg_ofZero]
      conv_rhs => rw [heq, signOf]
      split <;> rfl
  · obtain ⟨n, e, hread, hpos, hvalue⟩ :=
      readMagnitude?_positional (Binary.digits_shortest_pos .upper hb hmax)
    have htakes : (decode x).Takes (n * 10 ^ e) := by
      rw [hvalue]
      exact Binary.takes_shortest .upper hb hmax
    refine ⟨ofParts .positive (decode x) hb.pos, ?_, ?_⟩
    · rw [hread, scaled_eq hpos hb hmax htakes]
    · rw [neg_ofParts hb hmax]
      conv_rhs => rw [heq, signOf]
      split <;> rfl

/-- A finite float is read back from its shortest text. -/
theorem readFloat?_shortestText (hnan : x.isNaN = false) (hinf : x.isInf = false) :
    readFloat? (shortestText x).toList = some x := by
  obtain ⟨y, hread, hsign⟩ := readMagnitude?_shortest hnan hinf
  have hplain := plain_positional ((decode x).shortest .upper)
  rw [shortestText, hnan, hinf]
  simp only [Bool.false_eq_true, if_false]
  split
  · next hnegative =>
    rw [if_pos hnegative] at hsign
    have hspan : spanSign ('-' :: ((decode x).shortest .upper).positional) =
        (true, ((decode x).shortest .upper).positional) := rfl
    rw [String.toList_append, String.toList_ofList, String.toList_ofList, List.singleton_append,
      readFloat?_of_spanSign hspan hplain, hread, ← hsign]
    rfl
  · next hnegative =>
    rw [if_neg hnegative] at hsign
    rw [String.toList_ofList, readFloat?_of_spanSign hplain.spanSign hplain, hread, ← hsign]
    rfl

theorem not_isBlank_of_mem_shortestText (hnan : x.isNaN = false) (hinf : x.isInf = false)
    (h : c ∈ (shortestText x).toList) : isBlank c = false := by
  have hplain : ∀ c ∈ ((decode x).shortest .upper).positional, isBlank c = false := by
    intro c hc
    rcases plain_positional _ c hc with hdigit | rfl
    · exact isBlank_of_isDigit hdigit
    · rfl
  rw [shortestText, hnan, hinf] at h
  simp only [Bool.false_eq_true, if_false] at h
  split at h
  · rw [String.toList_append, String.toList_ofList, String.toList_ofList] at h
    rcases List.mem_append.1 h with h | h
    · rw [List.mem_singleton.1 h]
      rfl
    · exact hplain c h
  · rw [String.toList_ofList] at h
    exact hplain c h

/-! ## Whole numbers -/

theorem readWhole?_of_spanSign {negative : Bool} (hspan : spanSign cs = (negative, digits n)) :
    readWhole? cs = some (if negative then -(n : ℤ) else n) := by
  have hdigits : (digits n).all Char.isDigit = true := List.all_eq_true.2 fun c hc => isDigit_of_mem_digits hc
  have hempty : (digits n).isEmpty = false := by simpa using digits_ne_nil n
  rw [readWhole?, hspan]
  simp only [hdigits, hempty, digitsValue_digits]
  rfl

/-- A whole number within 64 bits is read back from its text. -/
theorem readInt?_toString {i : ℤ} (hmin : minInt64 ≤ i) (hmax : i ≤ maxInt64) :
    readInt? (toString i).toList = some i := by
  have hwhole : readWhole? (toString i).toList = some i := by
    cases i with
    | ofNat n =>
      have hplain : Plain (digits n) := fun c hc => .inl (isDigit_of_mem_digits hc)
      rw [Json.toList_toString_ofNat]
      exact readWhole?_of_spanSign hplain.spanSign
    | negSucc n =>
      have hspan : spanSign ('-' :: digits (n + 1)) = (true, digits (n + 1)) := rfl
      rw [Json.toList_toString_negSucc]
      exact readWhole?_of_spanSign hspan
  rw [readInt?, hwhole, Option.bind_some, if_pos ⟨hmin, hmax⟩]

theorem exists_takes_natCast (hpos : 0 < n) (hn : n ≤ 2 ^ 63) :
    ∃ (b : Binary), b.Canonical ∧ b.exponent ≤ 971 ∧ b.Takes n := by
  have hexact : Approximates (.ofMantissaAndAccuracy (n * 2 ^ 52) .exact) (n / 2 ^ (-52 : ℤ)) := by
    have hvalue : (n : ℚ) / 2 ^ (-52 : ℤ) = (n * 2 ^ 52 : ℕ) := by
      rw [zpow_neg, div_inv_eq_mul]
      push_cast
      rfl
    rw [hvalue]
    exact approximates_exact _
  have hone : (1 : ℚ) ≤ n := by exact_mod_cast hpos
  obtain ⟨b, hb, htakes, -⟩ := exists_roundWithAccuracy .positive hexact (.inl (by omega))
    ((zpow_lt_one_of_neg₀ one_lt_two (by norm_num)).trans_le hone)
  refine ⟨b, hb, ?_, htakes⟩
  by_contra hlarge
  -- the least number that rounds to a float with so great an exponent is greater
  have hlow := htakes.low_le hb
  have hm : (1 : ℚ) ≤ b.mantissa := by exact_mod_cast hb.pos
  have hn' : (n : ℚ) ≤ 2 ^ 63 := by exact_mod_cast hn
  have hunit : (2 : ℚ) ^ (70 : ℤ) ≤ 2 ^ b.exponent := zpow_le_zpow_right₀ one_le_two (by omega)
  have : 2 * (2 : ℚ) ^ b.exponent ≤ (4 * b.mantissa - 2) * 2 ^ b.exponent :=
    mul_le_mul_of_nonneg_right (by linarith) (by positivity)
  norm_num at hunit
  linarith

theorem exists_scaled_natCast (hn : n ≤ 2 ^ 63) :
    (scaled n 0).isFinite = true ∧ (-scaled n 0).isFinite = true := by
  rcases Nat.eq_zero_or_pos n with rfl | hpos
  · decide +kernel
  · obtain ⟨b, hb, hmax, htakes⟩ := exists_takes_natCast hpos hn
    have hscaled := scaled_eq hpos hb hmax (e := 0) (by rwa [zpow_zero, mul_one])
    rw [hscaled, neg_ofParts hb hmax]
    exact ⟨isFinite_ofParts _ hb hmax, isFinite_ofParts _ hb hmax⟩

/-- A text that writes a whole number within 64 bits also writes a finite float. -/
theorem exists_readFloat?_of_readInt? {i : ℤ} (h : readInt? cs = some i) :
    ∃ x, readFloat? cs = some x ∧ x.isFinite = true := by
  obtain ⟨i', hwhole, hrange⟩ := Option.bind_eq_some_iff.1 h
  obtain ⟨negative, body, hspan⟩ : ∃ negative body, spanSign cs = (negative, body) := ⟨_, _, rfl⟩
  rw [readWhole?, hspan] at hwhole
  dsimp only at hwhole
  split at hwhole
  · cases hwhole
  next hdigits =>
  simp only [Bool.or_eq_true, List.isEmpty_iff, Bool.not_eq_true', not_or, Bool.not_eq_false, List.all_eq_true]
    at hdigits
  have hbound : digitsValue body ≤ 2 ^ 63 := by
    split at hrange
    · next hbounds =>
      simp only [minInt64, maxInt64] at hbounds
      have := Option.some.inj hwhole
      split at this <;> omega
    · cases hrange
  rw [readFloat?_of_spanSign hspan fun c hc => .inl (hdigits.2 c hc), readMagnitude?_digits hdigits.1 hdigits.2]
  obtain ⟨hplus, hminus⟩ := exists_scaled_natCast hbound
  refine ⟨_, rfl, ?_⟩
  split
  · exact hminus
  · exact hplus

end Scriptorium.Decimal
