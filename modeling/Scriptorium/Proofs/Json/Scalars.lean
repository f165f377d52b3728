import Scriptorium.Json.Reader
import Scriptorium.Json.Writer
import Scriptorium.Proofs.Text.Runs

/-!
# Strings and integers in JSON

Every string and every integer is read back from its text, with whatever follows it left over
(`readParts_quoted`, `readNumber?_toString`).
-/

namespace Scriptorium

open Text Decimal

theorem Decimal.spanDigits_append {ds rest : List Char} (hds : ∀ c ∈ ds, c.isDigit = true)
    (hrest : ∀ c ∈ rest.head?, c.isDigit = false) : spanDigits (ds ++ rest) = (ds, rest) := by
  rw [spanDigits, takeWhile_of_head? hds hrest, dropWhile_of_head? hds hrest]

namespace Json

variable {cs rest : List Char} {c : Char}

/-! ## Strings -/

/-- The part that a character is read as after it was written. -/
def partOf (c : Char) : Part :=
  if c.toNat < 32 ∧ c ≠ '\n' ∧ c ≠ '\r' ∧ c ≠ '\t' ∧ c.toNat ≠ 8 ∧ c.toNat ≠ 12 then .unit c.toNat
  else .char c

theorem hexValue?_hexDigit : ∀ n < 16, hexValue? (hexDigit n) = some n := by decide

theorem hex4?_control {n : Nat} (h : n < 32) :
    hex4? '0' '0' (hexDigit (n / 16)) (hexDigit (n % 16)) = some n := by
  have hzero : hexValue? '0' = some 0 := rfl
  rw [hex4?, hzero, hexValue?_hexDigit _ (by omega), hexValue?_hexDigit _ (by omega)]
  simp only [bind, Option.bind, pure]
  congr 1
  omega

/-- A character is written with a letter after a backslash, by its number, or as it is. -/
theorem escapeChar_cases (c : Char) :
    (∃ e, escapeChar c = ['\\', e] ∧ e ≠ 'u' ∧ unescape? e = some c ∧ partOf c = .char c) ∨
    (escapeChar c = ['\\', 'u', '0', '0', hexDigit (c.toNat / 16), hexDigit (c.toNat % 16)] ∧ c.toNat < 32 ∧
      partOf c = .unit c.toNat) ∨
    (escapeChar c = [c] ∧ c ≠ '"' ∧ c ≠ '\\' ∧ ¬ c.toNat < 32 ∧ partOf c = .char c) := by
  have hnat : ∀ n, c.toNat = n → c = Char.ofNat n := fun n h => by rw [← h, Char.ofNat_toNat]
  unfold escapeChar
  split
  next h => subst h; exact .inl ⟨'"', rfl, by decide, rfl, rfl⟩
  split
  next h => subst h; exact .inl ⟨'\\', rfl, by decide, rfl, rfl⟩
  split
  next h => subst h; exact .inl ⟨'n', rfl, by decide, rfl, rfl⟩
  split
  next h => subst h; exact .inl ⟨'r', rfl, by decide, rfl, rfl⟩
  split
  next h => subst h; exact .inl ⟨'t', rfl, by decide, rfl, rfl⟩
  split
  next h => rw [hnat 8 h]; exact .inl ⟨'b', rfl, by decide, rfl, rfl⟩
  split
  next h => rw [hnat 12 h]; exact .inl ⟨'f', rfl, by decide, rfl, rfl⟩
  split
  next hn hr ht hb hf h => exact .inr (.inl ⟨rfl, h, if_pos ⟨h, hn, hr, ht, hb, hf⟩⟩)
  next hquote hbackslash _ _ _ _ _ h =>
    exact .inr (.inr ⟨rfl, hquote, hbackslash, h, if_neg fun hc => h hc.1⟩)

theorem readParts_plain (hquote : c ≠ '"') (hbackslash : c ≠ '\\') (hcontrol : ¬ c.toNat < 32)
    (cs : List Char) :
    readParts (c :: cs) = (readParts cs).map fun (parts, rest) => (.char c :: parts, rest) := by
  rw [readParts, if_neg hquote, if_neg hcontrol]
  · exact fun h _ => hbackslash h
  · exact fun _ _ h _ => hbackslash h

theorem readParts_escapeChar (c : Char) (cs : List Char) :
    readParts (escapeChar c ++ cs) = (readParts cs).map fun (parts, rest) => (partOf c :: parts, rest) := by
  rcases escapeChar_cases c with ⟨e, hescape, hunit, he, hpart⟩ | ⟨hescape, hcontrol, hpart⟩ |
      ⟨hescape, hquote, hbackslash, hcontrol, hpart⟩
  · rw [hescape, hpart, List.cons_append, List.cons_append, List.nil_append, readParts.eq_def]
    simp only [if_neg hunit, he]
    cases readParts cs with
    | none => rfl
    | some read => rfl
  · rw [hescape, hpart]
    simp only [List.cons_append, List.nil_append]
    rw [readParts, if_pos rfl]
    simp only [hex4?_control hcontrol]
    cases readParts cs with
    | none => rfl
    | some read => rfl
  · rw [hescape, hpart, List.cons_append, List.nil_append, readParts_plain hquote hbackslash hcontrol]

theorem readParts_flatMap (cs rest : List Char) :
    readParts (cs.flatMap escapeChar ++ '"' :: rest) = some (cs.map partOf, rest) := by
  induction cs with
  | nil => simp [readParts]
  | cons c cs ih => rw [List.flatMap_cons, List.append_assoc, readParts_escapeChar, ih, List.map_cons]; rfl

theorem textOf?_unit {u : Nat} (h : u < 32) (parts : List Part) :
    textOf? (.unit u :: parts) = (textOf? parts).map (Char.ofNat u :: ·) := by
  have hhigh : isHighSurrogate u = false := by simp [isHighSurrogate]; omega
  have hlow : isLowSurrogate u = false := by simp [isLowSurrogate]; omega
  -- whatever follows, a unit that is no surrogate stands for itself
  cases parts with
  | nil => simp [textOf?, hhigh, hlow]
  | cons part parts =>
    cases part with
    | char c => simp [textOf?, hhigh, hlow, Function.comp_def]
    | unit v => simp [textOf?, hhigh, hlow]

theorem textOf?_partOf (cs : List Char) : textOf? (cs.map partOf) = some cs := by
  induction cs with
  | nil => rfl
  | cons c cs ih =>
    rw [List.map_cons, partOf]
    split
    next h => rw [textOf?_unit h.1, ih, Option.map_some, Char.ofNat_toNat]
    next => rw [textOf?, ih, Option.map_some]

theorem ofParts_partOf (s : String) : ofParts (s.toList.map partOf) = .str s := by
  rw [ofParts, textOf?_partOf]
  simp

/-! ## Integers -/

/-- What follows does not go on with the number. -/
def EndsNumber (rest : List Char) : Prop :=
  ∀ c ∈ rest.head?, c.isDigit = false ∧ c ≠ '.' ∧ c ≠ 'e' ∧ c ≠ 'E'

theorem head?_toDigits {n : Nat} : (Nat.toDigits 10 n).head? = some '0' → n = 0 := by
  induction n using Nat.base_induction 10 (by decide) with
  | single m hm =>
    have hdigit : ∀ m < 10, Nat.digitChar m = '0' → m = 0 := by decide
    rw [Nat.toDigits_of_lt_base hm, List.head?_cons, Option.some.injEq]
    exact hdigit m hm
  | digit m k hk hm ih =>
    obtain ⟨d, ds, hds⟩ := List.exists_cons_of_ne_nil (Nat.toDigits_ne_nil (b := 10) (n := m))
    rw [← Nat.toDigits_append_toDigits (by decide) hm hk, hds]
    rw [hds] at ih
    intro h
    exact absurd (ih h) (by omega)

theorem spanDigits_toDigits (n : Nat) (hrest : EndsNumber rest) :
    spanDigits (Nat.toDigits 10 n ++ rest) = (Nat.toDigits 10 n, rest) := by
  have hdigits : ∀ c ∈ Nat.toDigits 10 n, c.isDigit = true :=
    fun c hc => Nat.isDigit_of_mem_toDigits (by decide) (by decide) hc
  exact spanDigits_append hdigits fun c hc => (hrest c hc).1

theorem readFraction?_of_endsNumber (hrest : EndsNumber rest) : readFraction? rest = some ([], rest) := by
  cases rest with
  | nil => rfl
  | cons c rest =>
    obtain ⟨-, hpoint, -, -⟩ := hrest c rfl
    rw [readFraction?]
    exact fun _ h => hpoint (List.cons.inj h).1

theorem readPower?_of_endsNumber (hrest : EndsNumber rest) : readPower? rest = some ([], rest) := by
  cases rest with
  | nil => rfl
  | cons c rest =>
    obtain ⟨-, -, he, hE⟩ := hrest c rfl
    simp [readPower?, he, hE]

theorem readUnsigned?_toDigits {negative : Bool} {n : Nat} (h : ¬ (negative = true ∧ n = 0))
    (hrest : EndsNumber rest) :
    readUnsigned? negative (Nat.toDigits 10 n ++ rest) = some (.int (if negative then -n else n), rest) := by
  have hvalue : digitsValue (Nat.toDigits 10 n) = n := Nat.ofDigitChars_ten_toDigits
  have hempty : (Nat.toDigits 10 n).isEmpty = false := by simp
  have hzero : ((Nat.toDigits 10 n).head? == some '0' && decide (1 < (Nat.toDigits 10 n).length)) =
      false := by
    rw [← Bool.not_eq_true]
    intro hlead
    simp only [Bool.and_eq_true, beq_iff_eq, decide_eq_true_eq] at hlead
    obtain rfl := head?_toDigits hlead.1
    exact absurd hlead.2 (by decide)
  have hminus : (negative && ((n : Int) == 0)) = false := by
    simpa using h
  rw [readUnsigned?, spanDigits_toDigits n hrest]
  simp only [hempty, hzero, readFraction?_of_endsNumber hrest, readPower?_of_endsNumber hrest, hvalue, hminus,
    bind, Option.bind, pure]
  rfl

theorem toList_toString_ofNat (n : Nat) : (toString (Int.ofNat n)).toList = Nat.toDigits 10 n :=
    Nat.toList_repr

theorem toList_toString_negSucc (n : Nat) :
    (toString (Int.negSucc n)).toList = '-' :: Nat.toDigits 10 (n + 1) := by
  have hrepr : toString (Int.negSucc n) = "-" ++ Nat.repr (n + 1) := rfl
  rw [hrepr, String.toList_append, Nat.toList_repr]
  rfl

theorem eq_or_isDigit_of_mem_toString {n : Int} (h : c ∈ (toString n).toList) :
    c = '-' ∨ c.isDigit = true := by
  cases n with
  | ofNat n =>
    rw [toList_toString_ofNat] at h
    exact .inr (Nat.isDigit_of_mem_toDigits (by decide) (by decide) h)
  | negSucc n =>
    rw [toList_toString_negSucc, List.mem_cons] at h
    exact h.imp_right (Nat.isDigit_of_mem_toDigits (by decide) (by decide))

/-- An integer begins with a minus or a digit. -/
theorem exists_toString_eq_cons (n : Int) :
    ∃ c cs, (toString n).toList = c :: cs ∧ (c = '-' ∨ c.isDigit = true) := by
  have hne : (toString n).toList ≠ [] := by
    cases n with
    | ofNat n => rw [toList_toString_ofNat]; exact Nat.toDigits_ne_nil
    | negSucc n => rw [toList_toString_negSucc]; exact List.cons_ne_nil _ _
  obtain ⟨c, cs, htext⟩ := List.exists_cons_of_ne_nil hne
  exact ⟨c, cs, htext, eq_or_isDigit_of_mem_toString (htext ▸ List.mem_cons_self)⟩

theorem readNumber?_toString (n : Int) (hrest : EndsNumber rest) :
    readNumber? ((toString n).toList ++ rest) = some (.int n, rest) := by
  cases n with
  | ofNat n =>
    obtain ⟨d, ds, hds⟩ := List.exists_cons_of_ne_nil (Nat.toDigits_ne_nil (b := 10) (n := n))
    have hd : d.isDigit = true :=
      Nat.isDigit_of_mem_toDigits (by decide) (by decide) (hds ▸ List.mem_cons_self)
    have hread : readNumber? (d :: ds ++ rest) = readUnsigned? false (d :: ds ++ rest) := by
      rw [List.cons_append, readNumber?]
      intro cs h
      obtain rfl := (List.cons.inj h).1
      cases hd
    rw [toList_toString_ofNat, hds, hread, ← hds, readUnsigned?_toDigits (by simp) hrest]
    rfl
  | negSucc n =>
    rw [toList_toString_negSucc, List.cons_append, readNumber?, readUnsigned?_toDigits (by simp) hrest]
    rfl

end Json

end Scriptorium
