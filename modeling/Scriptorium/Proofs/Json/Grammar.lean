import Scriptorium.Proofs.Json.LineEnds
import Scriptorium.Proofs.Text.Lines

/-!
# The grammar of JSON

`Writes` says which texts write a value, whatever the layout, the order of an object's members and the escapes in
its strings. The reader accepts each of them, with gaps around it, and finds that value
(`WritesText.read?`). Since more fuel reads nothing else, the proof goes by readers that have none.
-/

namespace Scriptorium.Json

open Text Decimal

variable {cs ds rest : List Char} {c : Char} {v : Json} {parts : List Part}

/-! ## Readers without fuel -/

theorem readItems_stable {fuel : Nat} (h : 2 * cs.length + 2 ≤ fuel) :
    readItems fuel cs = readItems (2 * cs.length + 2) cs := by
  induction fuel, h using Nat.le_induction with
  | base => rfl
  | succ fuel h ih => rw [(stable fuel).2.1 cs h, ih]

theorem readMembers_stable {fuel : Nat} (h : 2 * cs.length + 2 ≤ fuel) :
    readMembers fuel cs = readMembers (2 * cs.length + 2) cs := by
  induction fuel, h using Nat.le_induction with
  | base => rfl
  | succ fuel h ih => rw [(stable fuel).2.2 cs h, ih]

/-- The value at the start of a text, and the rest. -/
def valueAt? (cs : List Char) : Option (Json × List Char) := readValue (2 * cs.length + 1) cs

/-- The items of an array up to its end, and the rest. -/
def itemsAt? (cs : List Char) : Option (List Json × List Char) := readItems (2 * cs.length + 2) cs

/-- The members of an object up to its end, and the rest. -/
def membersAt? (cs : List Char) : Option (List (Json × Json) × List Char) := readMembers (2 * cs.length + 2) cs

theorem valueAt?_eq (cs : List Char) : valueAt? cs = valueStep itemsAt? membersAt? cs := by
  have hstep : valueStep (readItems (2 * cs.length)) (readMembers (2 * cs.length)) cs =
      valueStep itemsAt? membersAt? cs :=
    valueStep_congr (fun ds hds => readItems_stable (by omega)) fun ds hds => readMembers_stable (by omega)
  rw [valueAt?, readValue_succ, hstep]

theorem itemsAt?_eq (cs : List Char) : itemsAt? cs = itemsStep valueAt? itemsAt? cs := by
  have hstep : itemsStep (readValue (2 * cs.length + 1)) (readItems (2 * cs.length + 1)) cs =
      itemsStep valueAt? itemsAt? cs :=
    itemsStep_congr (reads _).1 rfl fun ds hds => readItems_stable (by omega)
  rw [itemsAt?, readItems_succ, hstep]

theorem membersAt?_eq (cs : List Char) : membersAt? cs = membersStep valueAt? membersAt? cs := by
  have hstep : membersStep (readValue (2 * cs.length + 1)) (readMembers (2 * cs.length + 1)) cs =
      membersStep valueAt? membersAt? cs :=
    membersStep_congr (reads _).1 (fun ds hds => readValue_stable (by omega))
      fun ds hds => readMembers_stable (by omega)
  rw [membersAt?, readMembers_succ, hstep]

/-! ## Strings and numbers -/

/-- The text of a string between its quotes: characters as they are, letters behind a backslash, and 16-bit units by
number. -/
inductive Spells : List Part → List Char → Prop where
  | nil : Spells [] []
  | plain {c : Char} {parts : List Part} {cs : List Char} (hquote : c ≠ '"') (hbackslash : c ≠ '\\')
      (hcontrol : ¬ c.toNat < 32) (h : Spells parts cs) : Spells (.char c :: parts) (c :: cs)
  | letter {e c : Char} {parts : List Part} {cs : List Char} (hescape : unescape? e = some c) (h : Spells parts cs) :
      Spells (.char c :: parts) ('\\' :: e :: cs)
  | number {a b c d : Char} {u : Nat} {parts : List Part} {cs : List Char} (hhex : hex4? a b c d = some u)
      (h : Spells parts cs) : Spells (.unit u :: parts) ('\\' :: 'u' :: a :: b :: c :: d :: cs)

theorem Spells.readParts (h : Spells parts cs) (rest : List Char) :
    readParts (cs ++ '"' :: rest) = some (parts, rest) := by
  induction h with
  | nil => rfl
  | plain hquote hbackslash hcontrol _ ih =>
    rw [List.cons_append, readParts_plain hquote hbackslash hcontrol, ih]
    rfl
  | @letter e c parts cs hescape _ ih =>
    have he : e ≠ 'u' := by
      rintro rfl
      cases hescape
    rw [List.cons_append, List.cons_append, readParts_cons, if_neg (by decide), if_pos rfl]
    simp [readEscape?, he, hescape, ih]
  | number hhex _ ih =>
    simp only [List.cons_append]
    rw [readParts_cons, if_neg (by decide), if_pos rfl]
    simp [readEscape?, readUnit?, hhex, ih]

/-- A text without quotes, backslashes and control characters spells itself. -/
theorem Spells.self (h : ∀ c ∈ cs, c ≠ '"' ∧ c ≠ '\\' ∧ ¬ c.toNat < 32) : Spells (cs.map .char) cs := by
  induction cs with
  | nil => exact .nil
  | cons c cs ih =>
    obtain ⟨⟨hquote, hbackslash, hcontrol⟩, hcs⟩ := List.forall_mem_cons.1 h
    exact .plain hquote hbackslash hcontrol (ih hcs)

/-- Digits, a fraction and an exponent as a number has them, without its sign. -/
structure IsNumber (whole fraction power : List Char) : Prop where
  whole_digits : ∀ c ∈ whole, c.isDigit = true
  whole_ne_nil : whole ≠ []
  no_zero_before : whole.head? = some '0' → whole.length = 1
  fraction_cases : fraction = [] ∨ ∃ ds, ds ≠ [] ∧ (∀ c ∈ ds, c.isDigit = true) ∧ fraction = '.' :: ds
  power_cases : power = [] ∨ ∃ e sign ds, (e = 'e' ∨ e = 'E') ∧ (sign = [] ∨ sign = ['+'] ∨ sign = ['-']) ∧
    ds ≠ [] ∧ (∀ c ∈ ds, c.isDigit = true) ∧ power = e :: (sign ++ ds)

/-- The value of a number: an integer, unless it has a fraction or an exponent or is zero with a minus. -/
def numberOf (negative : Bool) (whole fraction power : List Char) : Json :=
  let n : Int := digitsValue whole
  if fraction.isEmpty && power.isEmpty && !(negative && n == 0) then .int (if negative then -n else n)
  else
    let x := (readFloat? (whole ++ fraction ++ power)).getD 0
    .float (if negative then -x else x)

/-- A minus, if there is one. -/
def minus (negative : Bool) : List Char := if negative then ['-'] else []

namespace IsNumber

variable {whole fraction power : List Char} {negative : Bool}

theorem readPower? (h : IsNumber whole fraction power) (hrest : EndsNumber rest) :
    readPower? (power ++ rest) = some (power, rest) := by
  rcases h.power_cases with rfl | ⟨e, sign, ds, he, hsign, hne, hds, rfl⟩
  · exact readPower?_of_endsNumber hrest
  · have hspan : spanSign (sign ++ (ds ++ rest)) = (sign, ds ++ rest) := by
      obtain ⟨d, ds, rfl⟩ := List.exists_cons_of_ne_nil hne
      have hdigit := hds d (by simp)
      rcases hsign with rfl | rfl | rfl
      · rw [List.nil_append, List.cons_append, spanSign]
        · rintro _ ⟨⟩
          cases hdigit
        · rintro _ ⟨⟩
          cases hdigit
      · rfl
      · rfl
    rw [List.cons_append, List.append_assoc, readPower?_mark he, hspan,
      spanDigits_append hds fun c hc => (hrest c hc).1, if_neg (by simpa using hne)]
    rfl

theorem readFraction? (h : IsNumber whole fraction power) (hrest : EndsNumber rest) :
    readFraction? (fraction ++ (power ++ rest)) = some (fraction, power ++ rest) := by
  -- what follows the fraction is no digit and no point
  have hafter : ∀ c ∈ (power ++ rest).head?, c.isDigit = false ∧ c ≠ '.' := by
    rcases h.power_cases with rfl | ⟨e, sign, ds, he, -, -, -, rfl⟩
    · exact fun c hc => ⟨(hrest c hc).1, (hrest c hc).2.1⟩
    · rintro c ⟨⟩
      rcases he with rfl | rfl <;> decide
  rcases h.fraction_cases with rfl | ⟨ds, hne, hds, rfl⟩
  · rw [List.nil_append]
    cases hcs : power ++ rest with
    | nil => rfl
    | cons c cs =>
      rw [Json.readFraction?]
      rintro _ ⟨⟩
      exact (hafter '.' (by rw [hcs]; rfl)).2 rfl
  · rw [List.cons_append, Json.readFraction?, spanDigits_append hds fun c hc => (hafter c hc).1]
    exact if_neg (by simpa using hne)

theorem readUnsigned? (h : IsNumber whole fraction power) (negative : Bool) (hrest : EndsNumber rest) :
    readUnsigned? negative (whole ++ (fraction ++ (power ++ rest))) =
      some (numberOf negative whole fraction power, rest) := by
  -- what follows the digits is no digit
  have hpower : ∀ c ∈ (power ++ rest).head?, c.isDigit = false := by
    rcases h.power_cases with rfl | ⟨e, sign, ds, he, -, -, -, rfl⟩
    · exact fun c hc => (hrest c hc).1
    · rintro c ⟨⟩
      rcases he with rfl | rfl <;> decide
  have hafter : ∀ c ∈ (fraction ++ (power ++ rest)).head?, c.isDigit = false := by
    rcases h.fraction_cases with rfl | ⟨ds, -, -, rfl⟩
    · exact hpower
    · rintro c ⟨⟩
      decide
  have hempty : whole.isEmpty = false := by simpa using h.whole_ne_nil
  have hzero : (whole.head? == some '0' && decide (1 < whole.length)) = false := by
    rw [← Bool.not_eq_true, Bool.and_eq_true, beq_iff_eq, decide_eq_true_eq]
    rintro ⟨hhead, hlength⟩
    exact absurd (h.no_zero_before hhead) hlength.ne'
  rw [Json.readUnsigned?, spanDigits_append h.whole_digits hafter]
  simp only [hempty, hzero, h.readFraction? hrest, h.readPower? hrest, bind, Option.bind, pure, numberOf, Bool.or_self,
    Bool.false_eq_true, if_false]
  split <;> rfl

theorem readNumber? (h : IsNumber whole fraction power) (negative : Bool) (hrest : EndsNumber rest) :
    readNumber? (minus negative ++ (whole ++ (fraction ++ (power ++ rest)))) =
      some (numberOf negative whole fraction power, rest) := by
  cases negative with
  | true => exact h.readUnsigned? true hrest
  | false =>
    obtain ⟨d, ds, rfl⟩ := List.exists_cons_of_ne_nil h.whole_ne_nil
    have hdigit := h.whole_digits d (by simp)
    have hread := h.readUnsigned? false hrest
    rw [minus, if_neg Bool.false_ne_true, List.nil_append]
    rw [List.cons_append] at hread ⊢
    rw [Json.readNumber?, hread]
    rintro _ ⟨⟩
    cases hdigit

/-- A number begins with a minus or a digit. -/
theorem exists_eq_cons (h : IsNumber whole fraction power) (negative : Bool) :
    ∃ c tail, minus negative ++ (whole ++ (fraction ++ power)) = c :: tail ∧ (c = '-' ∨ c.isDigit = true) := by
  cases negative with
  | true => exact ⟨'-', _, rfl, .inl rfl⟩
  | false =>
    obtain ⟨d, ds, rfl⟩ := List.exists_cons_of_ne_nil h.whole_ne_nil
    exact ⟨d, _, rfl, .inr (h.whole_digits d (by simp))⟩

end IsNumber

/-! ## Values -/

/-- A text with gaps around it. -/
structure Padded where
  before : List Char
  text : List Char
  after : List Char
  before_gap : ∀ c ∈ before, isGap c = true
  after_gap : ∀ c ∈ after, isGap c = true

/-- A text with nothing around it. -/
def Padded.bare (cs : List Char) : Padded := ⟨[], cs, [], by simp, by simp⟩

def Padded.whole (p : Padded) : List Char := p.before ++ (p.text ++ p.after)

/-- The texts of a member of an object: what its key is spelled with, and its key and value with gaps. -/
structure MemberText where
  parts : List Part
  spelled : List Char
  spells : Spells parts spelled
  key : Padded
  key_text : key.text = '"' :: (spelled ++ ['"'])
  value : Padded

def MemberText.whole (m : MemberText) : List Char := m.key.whole ++ ':' :: m.value.whole

/-- A member with no gaps in it whose key needs no escapes. -/
def MemberText.bare (key value : List Char) (h : ∀ c ∈ key, c ≠ '"' ∧ c ≠ '\\' ∧ ¬ c.toNat < 32) : MemberText where
  parts := key.map .char
  spelled := key
  spells := .self h
  key := .bare ('"' :: (key ++ ['"']))
  key_text := rfl
  value := .bare value

/-- A text writes a value, with no gaps around it. -/
inductive Writes : Json → List Char → Prop where
  | null : Writes .null "null".toList
  | bool (b : Bool) : Writes (.bool b) (if b then "true" else "false").toList
  | number {whole fraction power : List Char} (negative : Bool) (h : IsNumber whole fraction power) :
      Writes (numberOf negative whole fraction power) (minus negative ++ (whole ++ (fraction ++ power)))
  | str {parts : List Part} {cs : List Char} (h : Spells parts cs) : Writes (ofParts parts) ('"' :: (cs ++ ['"']))
  | noItems {gap : List Char} (hgap : ∀ c ∈ gap, isGap c = true) : Writes (.arr []) ('[' :: (gap ++ [']']))
  | items {items : List (Json × Padded)} (hne : items ≠ []) (h : ∀ i ∈ items, Writes i.1 i.2.text) :
      Writes (.arr (items.map (·.1))) ('[' :: (join [','] (items.map (·.2.whole)) ++ [']']))
  | noMembers {gap : List Char} (hgap : ∀ c ∈ gap, isGap c = true) :
      Writes (.obj []) ('\x7b' :: (gap ++ ['\x7d']))
  | members {members : List (Json × MemberText)} (hne : members ≠ []) (h : ∀ m ∈ members, Writes m.1 m.2.value.text) :
      Writes (ofMembers (members.map fun m => (ofParts m.2.parts, m.1)))
        ('\x7b' :: (join [','] (members.map (·.2.whole)) ++ ['\x7d']))

/-! ## Reading values -/

theorem valueAt?_gap {gap : List Char} (hgap : ∀ c ∈ gap, isGap c = true) (cs : List Char) :
    valueAt? (gap ++ cs) = valueAt? cs := by
  rw [valueAt?_eq, valueStep, skipGap_append hgap, ← valueStep, ← valueAt?_eq]

theorem itemsAt?_gap {gap : List Char} (hgap : ∀ c ∈ gap, isGap c = true) (cs : List Char) :
    itemsAt? (gap ++ cs) = itemsAt? cs := by
  rw [itemsAt?_eq, itemsStep, valueAt?_gap hgap, ← itemsStep, ← itemsAt?_eq]

theorem membersAt?_gap {gap : List Char} (hgap : ∀ c ∈ gap, isGap c = true) (cs : List Char) :
    membersAt? (gap ++ cs) = membersAt? cs := by
  rw [membersAt?_eq, membersStep, readKey?, skipGap_append hgap, ← readKey?, ← membersStep, ← membersAt?_eq]

/-- What stands behind a value in a text does not go on with a number. -/
theorem endsNumber_gap {gap : List Char} (hgap : ∀ c ∈ gap, isGap c = true) (hrest : EndsNumber rest) :
    EndsNumber (gap ++ rest) := by
  refine forall_head?_append (fun c hc => ?_) hrest
  have hc := hgap c hc
  simp only [isGap, Bool.or_eq_true, beq_iff_eq, or_assoc] at hc
  rcases hc with rfl | rfl | rfl | rfl <;> decide

/-- The text is read as the value, whatever follows that does not go on with a number. -/
def ReadAs (v : Json) (cs : List Char) : Prop := ∀ rest, EndsNumber rest → valueAt? (cs ++ rest) = some (v, rest)

theorem ReadAs.padded {p : Padded} (h : ReadAs v p.text) (hrest : EndsNumber rest) :
    valueAt? (p.whole ++ rest) = some (v, p.after ++ rest) := by
  rw [Padded.whole, List.append_assoc, valueAt?_gap p.before_gap, List.append_assoc]
  exact h _ (endsNumber_gap p.after_gap hrest)

theorem skipGap_padded (p : Padded) (hc : isGap c = false) (rest : List Char) :
    skipGap (p.after ++ c :: rest) = c :: rest := by
  rw [skipGap_append p.after_gap, skipGap_cons hc]

theorem itemsAt?_whole {p : Padded} (h : ReadAs v p.text) (hrest : EndsNumber rest) :
    itemsAt? (p.whole ++ rest) = afterItem itemsAt? v (p.after ++ rest) := by
  rw [itemsAt?_eq, itemsStep, h.padded hrest]
  rfl

theorem itemsAt?_join {items : List (Json × Padded)} (hne : items ≠ []) (h : ∀ i ∈ items, ReadAs i.1 i.2.text)
    (rest : List Char) :
    itemsAt? (join [','] (items.map (·.2.whole)) ++ ']' :: rest) = some (items.map (·.1), rest) := by
  induction items with
  | nil => exact absurd rfl hne
  | cons i items ih =>
    have hi := h i (by simp)
    by_cases hlast : items = []
    · subst hlast
      show itemsAt? (i.2.whole ++ ']' :: rest) = _
      rw [itemsAt?_whole hi (endsNumber_cons (by decide) _), afterItem, skipGap_padded _ (by decide)]
      rfl
    · have hmore := ih hlast fun j hj => h j (List.mem_cons_of_mem i hj)
      rw [List.map_cons, join_cons _ _ (by simpa using hlast), List.append_assoc, List.cons_append,
        itemsAt?_whole hi (endsNumber_cons (by decide) _), afterItem, skipGap_padded _ (by decide)]
      simp only [hmore]
      rfl

theorem readKey?_whole (m : MemberText) (rest : List Char) :
    readKey? (m.key.whole ++ ':' :: rest) = some (ofParts m.parts, rest) := by
  rw [readKey?, Padded.whole, List.append_assoc, skipGap_append m.key.before_gap, m.key_text, List.append_assoc,
    List.cons_append, List.append_assoc, List.singleton_append, skipGap_cons (by decide)]
  simp only [m.spells.readParts, Option.bind_some, skipGap_padded m.key (show isGap ':' = false by decide)]

theorem membersAt?_whole {m : MemberText} (h : ReadAs v m.value.text) (hrest : EndsNumber rest) :
    membersAt? (m.whole ++ rest) = afterMember membersAt? (ofParts m.parts) v (m.value.after ++ rest) := by
  rw [membersAt?_eq, membersStep, MemberText.whole, List.append_assoc, List.cons_append, readKey?_whole]
  simp only [Option.bind_some, h.padded hrest]

theorem membersAt?_join {members : List (Json × MemberText)} (hne : members ≠ [])
    (h : ∀ m ∈ members, ReadAs m.1 m.2.value.text) (rest : List Char) :
    membersAt? (join [','] (members.map (·.2.whole)) ++ '\x7d' :: rest) =
      some (members.map fun m => (ofParts m.2.parts, m.1), rest) := by
  induction members with
  | nil => exact absurd rfl hne
  | cons m members ih =>
    have hm := h m (by simp)
    by_cases hlast : members = []
    · subst hlast
      show membersAt? (m.2.whole ++ '\x7d' :: rest) = _
      rw [membersAt?_whole hm (endsNumber_cons (by decide) _), afterMember, skipGap_padded _ (by decide)]
      rfl
    · have hmore := ih hlast fun n hn => h n (List.mem_cons_of_mem m hn)
      rw [List.map_cons, join_cons _ _ (by simpa using hlast), List.append_assoc, List.cons_append,
        membersAt?_whole hm (endsNumber_cons (by decide) _), afterMember, skipGap_padded _ (by decide)]
      simp only [hmore]
      rfl

theorem exists_gap (cs : List Char) : ∃ gap, cs = gap ++ skipGap cs ∧ ∀ c ∈ gap, isGap c = true :=
  ⟨cs.takeWhile isGap, List.takeWhile_append_dropWhile.symm, fun _ hc => List.mem_takeWhile_imp hc⟩

/-- An array is not empty if its bracket is not followed by the closing one. -/
theorem valueAt?_bracket (h : ∀ x ∈ (skipGap cs).head?, x ≠ ']') :
    valueAt? ('[' :: cs) = (itemsAt? cs).map (Prod.map .arr id) := by
  obtain ⟨gap, hcs, hgap⟩ := exists_gap cs
  rw [valueAt?_eq, valueStep, skipGap_cons (by decide)]
  simp only [if_neg (show '[' ≠ '"' by decide), if_true]
  split
  · next heq => exact absurd rfl (h ']' (by rw [heq]; rfl))
  · conv_rhs => rw [hcs, itemsAt?_gap hgap]

/-- An object is not empty if its brace is not followed by the closing one. -/
theorem valueAt?_brace (h : ∀ x ∈ (skipGap cs).head?, x ≠ '\x7d') :
    valueAt? ('\x7b' :: cs) = (membersAt? cs).map (Prod.map ofMembers id) := by
  obtain ⟨gap, hcs, hgap⟩ := exists_gap cs
  rw [valueAt?_eq, valueStep, skipGap_cons (by decide)]
  simp only [if_neg (show '\x7b' ≠ '"' by decide), if_neg (show '\x7b' ≠ '[' by decide), if_true]
  split
  · next heq => exact absurd rfl (h '\x7d' (by rw [heq]; rfl))
  · conv_rhs => rw [hcs, membersAt?_gap hgap]

/-- A value begins with a character that is no gap and closes no array. -/
theorem Writes.exists_eq_cons (h : Writes v cs) : ∃ c tail, cs = c :: tail ∧ isGap c = false ∧ c ≠ ']' := by
  cases h with
  | bool b => cases b <;> exact ⟨_, _, rfl, by decide, by decide⟩
  | number negative h =>
    obtain ⟨c, tail, hcs, hc⟩ := h.exists_eq_cons negative
    exact ⟨c, tail, hcs, isGap_of_isBlank (isBlank_of_eq_or_isDigit hc), ne_of_eq_or_isDigit hc (by decide) (by decide)⟩
  | _ => exact ⟨_, _, rfl, by decide, by decide⟩

/-- What parts joined with others begin with, behind gaps, is what the first begins with. -/
theorem skipGap_join {p : Padded} {tail : List Char} (hp : p.text = c :: tail) (hc : isGap c = false)
    (more : List Char) (parts : List (List Char)) (rest : List Char) :
    (skipGap (join [','] ((p.whole ++ more) :: parts) ++ rest)).head? = some c := by
  obtain ⟨others, hothers⟩ : ∃ others, join [','] ((p.whole ++ more) :: parts) = p.whole ++ more ++ others := by
    cases parts with
    | nil => exact ⟨[], (List.append_nil _).symm⟩
    | cons part parts => exact ⟨_, join_cons _ _ (List.cons_ne_nil _ _)⟩
  rw [hothers, Padded.whole, hp]
  simp only [List.append_assoc]
  rw [skipGap_append p.before_gap, List.cons_append, skipGap_cons hc]
  rfl

/-- Every text that writes a value is read as it. -/
theorem Writes.readAs (h : Writes v cs) : ReadAs v cs := by
  induction h with
  | null =>
    intro rest _
    rw [valueAt?_eq]
    rfl
  | bool b =>
    intro rest _
    rw [valueAt?_eq]
    cases b <;> rfl
  | @number whole fraction power negative h =>
    intro rest hrest
    obtain ⟨c, tail, hcs, hc⟩ := h.exists_eq_cons negative
    have hread := h.readNumber? negative hrest
    simp only [← List.append_assoc] at hread hcs ⊢
    rw [hcs, List.cons_append] at hread ⊢
    rw [valueAt?_eq, valueStep, skipGap_cons (isGap_of_isBlank (isBlank_of_eq_or_isDigit hc))]
    dsimp only
    rw [if_neg (ne_of_eq_or_isDigit hc (by decide) (by decide)),
      if_neg (ne_of_eq_or_isDigit hc (by decide) (by decide)),
      if_neg (ne_of_eq_or_isDigit hc (by decide) (by decide)), if_pos hc, hread]
  | str h =>
    intro rest _
    rw [List.cons_append, List.append_assoc, List.singleton_append, valueAt?_eq, valueStep, skipGap_cons (by decide)]
    simp only [if_true, h.readParts, Option.map_some]
    rfl
  | noItems hgap =>
    intro rest _
    have hclose : skipGap (']' :: rest) = ']' :: rest := skipGap_cons (by decide) rest
    rw [List.cons_append, List.append_assoc, List.singleton_append, valueAt?_eq, valueStep, skipGap_cons (by decide)]
    simp only [if_neg (show '[' ≠ '"' by decide), if_true, skipGap_append hgap, hclose]
  | noMembers hgap =>
    intro rest _
    have hclose : skipGap ('\x7d' :: rest) = '\x7d' :: rest := skipGap_cons (by decide) rest
    rw [List.cons_append, List.append_assoc, List.singleton_append, valueAt?_eq, valueStep, skipGap_cons (by decide)]
    simp only [if_neg (show '\x7b' ≠ '"' by decide), if_neg (show '\x7b' ≠ '[' by decide), if_true, skipGap_append hgap,
      hclose]
  | @items items hne h ih =>
    intro rest _
    rw [List.cons_append, List.append_assoc, List.singleton_append, valueAt?_bracket, itemsAt?_join hne ih]
    · rfl
    · obtain ⟨i, others, rfl⟩ := List.exists_cons_of_ne_nil hne
      obtain ⟨c, tail, htext, hgap, hc⟩ := (h i (by simp)).exists_eq_cons
      have hhead := skipGap_join htext hgap [] (others.map (·.2.whole)) (']' :: rest)
      rw [List.append_nil] at hhead
      intro x hx
      obtain rfl := Option.some.inj (hhead.symm.trans hx)
      exact hc
  | @members members hne h ih =>
    intro rest _
    rw [List.cons_append, List.append_assoc, List.singleton_append, valueAt?_brace, membersAt?_join hne ih]
    · rfl
    · obtain ⟨m, others, rfl⟩ := List.exists_cons_of_ne_nil hne
      have hhead := skipGap_join m.2.key_text (by decide) (':' :: m.2.value.whole) (others.map (·.2.whole))
        ('\x7d' :: rest)
      intro x hx
      obtain rfl := Option.some.inj (hhead.symm.trans hx)
      decide

/-- A text is a value with gaps around it. -/
def WritesText (v : Json) (text : String) : Prop := ∃ p : Padded, text.toList = p.whole ∧ Writes v p.text

theorem WritesText.read? {text : String} (h : WritesText v text) : read? text.toList = some v := by
  obtain ⟨p, htext, hwrites⟩ := h
  have hend : EndsNumber [] := by simp [EndsNumber]
  have hread : valueAt? (p.whole ++ []) = some (v, p.after ++ []) := hwrites.readAs.padded hend
  rw [List.append_nil, List.append_nil] at hread
  have hafter : (skipGap p.after).isEmpty = true := by
    rw [List.isEmpty_iff, skipGap, List.dropWhile_eq_nil_iff]
    exact p.after_gap
  rw [read?_eq (Nat.le_refl _), ← valueAt?, htext, hread, Option.bind_some]
  exact if_pos hafter

end Scriptorium.Json
