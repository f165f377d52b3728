import Scriptorium.Proofs.Json.PrettyLines

/-!
# What a reader takes

A value that is read takes a front of the text in which each line end is followed by gaps and a character that begins a
token, never a slash (`takes_value`). So a reader always goes on with a shorter text, and more fuel than the text is long
reads nothing else (`readValue_stable`).
-/

namespace Scriptorium.Json

open Text Decimal

variable {cs ds rest : List Char} {c : Char} {v : Json}

/-! ## Texts that are laid out -/

/-- After each line end come gaps and then a character that begins a token. -/
def Laid (cs : List Char) : Prop :=
  ∀ before after, cs = before ++ '\n' :: after → BeginsLine (skipGap after)

theorem laid_of_not_mem (h : '\n' ∉ cs) : Laid cs := by
  rintro before after rfl
  simp at h

theorem Laid.cons (h : Laid cs) (hc : c = '\n' → BeginsLine (skipGap cs)) : Laid (c :: cs) := by
  intro before after hcut
  rcases List.cons_eq_append_iff.1 hcut with ⟨-, hhead⟩ | ⟨before, rfl, hcs⟩
  · obtain ⟨rfl, rfl⟩ := List.cons.inj hhead
    exact hc rfl
  · exact h before after hcs

theorem BeginsLine.skipGap_append (h : BeginsLine (skipGap cs)) (ds : List Char) :
    BeginsLine (skipGap (cs ++ ds)) := by
  have hne : skipGap cs ≠ [] := by
    obtain ⟨c, tail, hhead, -⟩ := h
    simp [hhead]
  rw [skipGap, List.dropWhile_append, if_neg (by simpa [skipGap] using hne)]
  exact h.append ds

theorem Laid.append (h : Laid cs) (h' : Laid ds) : Laid (cs ++ ds) := by
  induction cs with
  | nil => exact h'
  | cons c cs ih =>
    refine Laid.cons (ih fun before after hcut => h (c :: before) after (by rw [hcut]; rfl)) ?_
    rintro rfl
    exact (h [] cs rfl).skipGap_append ds

theorem Laid.gap {gap : List Char} (h : Laid cs) (hcs : BeginsLine (skipGap cs)) (hgap : ∀ x ∈ gap, isGap x = true) :
    Laid (gap ++ cs) := by
  induction gap with
  | nil => exact h
  | cons x gap ih =>
    have hrest := fun y hy => hgap y (List.mem_cons_of_mem x hy)
    exact Laid.cons (ih hrest) fun _ => (skipGap_append hrest cs).symm ▸ hcs

/-! ## Fronts of a text -/

/-- The rest is what follows a front that is laid out, gaps before a token included. -/
def Takes (cs rest : List Char) : Prop := ∃ front, cs = front ++ rest ∧ BeginsLine (skipGap front) ∧ Laid front

/-- The rest is what follows a front without line ends. -/
def TakesPlain (cs rest : List Char) : Prop := ∃ front, cs = front ++ rest ∧ '\n' ∉ front

theorem TakesPlain.refl (cs : List Char) : TakesPlain cs cs := ⟨[], rfl, by simp⟩

theorem TakesPlain.cons (h : TakesPlain cs rest) (hc : c ≠ '\n') : TakesPlain (c :: cs) rest := by
  obtain ⟨front, rfl, hfront⟩ := h
  exact ⟨c :: front, rfl, by simp [hfront, hc.symm]⟩

theorem TakesPlain.trans (h : TakesPlain cs ds) (h' : TakesPlain ds rest) : TakesPlain cs rest := by
  obtain ⟨front, rfl, hfront⟩ := h
  obtain ⟨more, rfl, hmore⟩ := h'
  exact ⟨front ++ more, by simp, by simp [hfront, hmore]⟩

theorem Takes.length_lt (h : Takes cs rest) : rest.length < cs.length := by
  obtain ⟨front, rfl, hbegins, -⟩ := h
  have hne : front ≠ [] := by
    rintro rfl
    obtain ⟨c, tail, hnil, -⟩ := hbegins
    cases hnil
  have hpos := List.length_pos_iff.2 hne
  rw [List.length_append]
  omega

theorem Takes.trans (h : Takes cs ds) (h' : Takes ds rest) : Takes cs rest := by
  obtain ⟨front, rfl, hbegins, hlaid⟩ := h
  obtain ⟨more, rfl, -, hlaid'⟩ := h'
  exact ⟨front ++ more, by simp, hbegins.skipGap_append more, hlaid.append hlaid'⟩

theorem Takes.plain (h : Takes cs ds) (h' : TakesPlain ds rest) : Takes cs rest := by
  obtain ⟨front, rfl, hbegins, hlaid⟩ := h
  obtain ⟨more, rfl, hmore⟩ := h'
  exact ⟨front ++ more, by simp, hbegins.skipGap_append more, hlaid.append (laid_of_not_mem hmore)⟩

/-- The gaps before a front belong to it. -/
theorem Takes.gap (h : Takes (skipGap cs) rest) : Takes cs rest := by
  obtain ⟨front, hfront, hbegins, hlaid⟩ := h
  have hgap : ∀ x ∈ cs.takeWhile isGap, isGap x = true := fun x hx => List.mem_takeWhile_imp hx
  refine ⟨cs.takeWhile isGap ++ front, ?_, ?_, hlaid.gap hbegins hgap⟩
  · rw [List.append_assoc, ← hfront]
    exact List.takeWhile_append_dropWhile.symm
  · rwa [skipGap_append hgap]

theorem takes_token (h : skipGap cs = c :: rest) (hblank : isBlank c = false) (hc : c ≠ '/') : Takes cs rest := by
  refine Takes.gap (h ▸ ⟨[c], rfl, ⟨c, [], skipGap_cons (isGap_of_isBlank hblank) [], hblank, hc⟩, ?_⟩)
  refine laid_of_not_mem ?_
  rw [List.mem_singleton]
  rintro rfl
  cases hblank

/-! ## Strings, numbers and words -/

theorem hex4?_eq_some {a b c d : Char} {u : Nat} (h : hex4? a b c d = some u) :
    a ≠ '\n' ∧ b ≠ '\n' ∧ c ≠ '\n' ∧ d ≠ '\n' := by
  have hnone : hexValue? '\n' = none := rfl
  refine ⟨?_, ?_, ?_, ?_⟩ <;> rintro rfl <;> simp [hex4?, hnone] at h

theorem takesPlain_readParts {parts : List Part} (h : readParts cs = some (parts, rest)) : TakesPlain cs rest := by
  fun_induction readParts cs generalizing parts with
  | case3 a b c d cs u parts rest hread hhex ih =>
    obtain ⟨-, rfl⟩ := Prod.mk.inj (Option.some.inj h)
    obtain ⟨ha, hb, hc, hd⟩ := hex4?_eq_some hhex
    exact (((((ih hread).cons hd).cons hc).cons hb).cons ha).cons (by decide) |>.cons (by decide)
  | case6 e cs _ c parts rest hread hescape ih =>
    obtain ⟨-, rfl⟩ := Prod.mk.inj (Option.some.inj h)
    refine ((ih hread).cons ?_).cons (by decide)
    rintro rfl
    cases hescape
  | case8 cs =>
    obtain ⟨-, rfl⟩ := Prod.mk.inj (Option.some.inj h)
    exact (TakesPlain.refl cs).cons (by decide)
  | case10 c cs _ _ _ hcontrol ih =>
    obtain ⟨⟨parts, rest⟩, hread, hpair⟩ := Option.map_eq_some_iff.1 h
    obtain ⟨-, rfl⟩ := Prod.mk.inj hpair
    refine (ih hread).cons ?_
    rintro rfl
    exact hcontrol (by decide)
  | _ => cases h

theorem takesPlain_spanDigits (cs : List Char) : TakesPlain cs (spanDigits cs).2 := by
  refine ⟨cs.takeWhile Char.isDigit, List.takeWhile_append_dropWhile.symm, fun h => ?_⟩
  have hdigit : Char.isDigit '\n' = true := List.mem_takeWhile_imp h
  cases hdigit

theorem takesPlain_readFraction? {ds : List Char} (h : readFraction? cs = some (ds, rest)) : TakesPlain cs rest := by
  unfold readFraction? at h
  split at h
  · next cs =>
    obtain ⟨-, h⟩ := Option.ite_none_left_eq_some.1 h
    obtain ⟨-, rfl⟩ := Prod.mk.inj (Option.some.inj h)
    exact (takesPlain_spanDigits cs).cons (by decide)
  · obtain ⟨-, rfl⟩ := Prod.mk.inj (Option.some.inj h)
    exact .refl cs

theorem takesPlain_readPower? {ds : List Char} (h : readPower? cs = some (ds, rest)) : TakesPlain cs rest := by
  unfold readPower? at h
  split at h
  · obtain ⟨-, rfl⟩ := Prod.mk.inj (Option.some.inj h)
    exact .refl []
  · next e cs =>
    split at h
    · next he =>
      have hmark : e ≠ '\n' := by
        rintro rfl
        exact absurd he (by decide)
      obtain ⟨-, h⟩ := Option.ite_none_left_eq_some.1 h
      obtain ⟨-, rfl⟩ := Prod.mk.inj (Option.some.inj h)
      refine TakesPlain.cons ?_ hmark
      split
      · exact (takesPlain_spanDigits _).cons (by decide)
      · exact (takesPlain_spanDigits _).cons (by decide)
      · exact takesPlain_spanDigits cs
    · obtain ⟨-, rfl⟩ := Prod.mk.inj (Option.some.inj h)
      exact .refl _

theorem takesPlain_readUnsigned? {negative : Bool} (h : readUnsigned? negative cs = some (v, rest)) :
    TakesPlain (spanDigits cs).2 rest := by
  unfold readUnsigned? at h
  obtain ⟨-, h⟩ := Option.ite_none_left_eq_some.1 h
  obtain ⟨⟨fraction, afterFraction⟩, hfraction, h⟩ := Option.bind_eq_some_iff.1 h
  obtain ⟨⟨power, afterPower⟩, hpower, h⟩ := Option.bind_eq_some_iff.1 h
  obtain rfl : afterPower = rest := by
    dsimp only at h
    split at h
    · exact (Prod.mk.inj (Option.some.inj h)).2
    · exact (Prod.mk.inj (Option.some.inj h)).2
  exact (takesPlain_readFraction? hfraction).trans (takesPlain_readPower? hpower)

theorem takes_number (h : skipGap cs = c :: ds) (hc : c = '-' ∨ c.isDigit = true)
    (hread : readNumber? (c :: ds) = some (v, rest)) : Takes cs rest := by
  have hslash : c ≠ '/' := ne_of_eq_or_isDigit hc (by decide) (by decide)
  refine ((takes_token h (isBlank_of_eq_or_isDigit hc) hslash).plain (takesPlain_spanDigits ds)).plain ?_
  by_cases hminus : c = '-'
  · subst hminus
    exact takesPlain_readUnsigned? hread
  · have hdigit := hc.resolve_left hminus
    have hspan : (spanDigits (c :: ds)).2 = (spanDigits ds).2 := by simp [spanDigits, hdigit]
    rw [readNumber?.eq_2 _ (by rintro _ ⟨⟩; exact hminus rfl)] at hread
    exact hspan ▸ takesPlain_readUnsigned? hread

theorem takes_word (h : skipGap cs = c :: ds) (hread : readWord? (c :: ds) = some (v, rest)) : Takes cs rest := by
  obtain ⟨⟨word, v'⟩, hword, hfound⟩ := List.exists_of_findSome?_eq_some hread
  obtain ⟨hfront, hpair⟩ := Option.ite_none_right_eq_some.1 hfound
  obtain ⟨-, hrest⟩ := Prod.mk.inj (Option.some.inj hpair)
  obtain ⟨more, hmore⟩ := List.isPrefixOf_iff_prefix.1 hfront
  have hplain : ∃ w ws, word.toList = w :: ws ∧ isBlank w = false ∧ w ≠ '/' ∧ '\n' ∉ ws := by
    simp only [List.mem_cons, List.not_mem_nil, or_false, Prod.mk.injEq] at hword
    rcases hword with ⟨rfl, -⟩ | ⟨rfl, -⟩ | ⟨rfl, -⟩
    · exact ⟨'n', _, rfl, by decide, by decide, by decide⟩
    · exact ⟨'t', _, rfl, by decide, by decide, by decide⟩
    · exact ⟨'f', _, rfl, by decide, by decide, by decide⟩
  obtain ⟨w, ws, htext, hblank, hslash, hws⟩ := hplain
  rw [htext] at hmore
  obtain ⟨rfl, rfl⟩ := List.cons.inj hmore
  refine (takes_token h hblank hslash).plain ⟨ws, ?_, hws⟩
  rw [← hrest, ← String.length_toList, htext]
  simp

/-! ## Values -/

section Step

variable (value : List Char → Option (Json × List Char)) (items : List Char → Option (List Json × List Char))
  (members : List Char → Option (List (Json × Json) × List Char))

/-- The value at the start of a text, if items and members are read so. -/
def valueStep (cs : List Char) : Option (Json × List Char) :=
  match skipGap cs with
  | [] => none
  | c :: rest =>
    if c = '"' then (readParts rest).map (Prod.map ofParts id)
    else if c = '[' then
      match skipGap rest with
      | ']' :: rest => some (.arr [], rest)
      | rest => (items rest).map (Prod.map .arr id)
    else if c = '\x7b' then
      match skipGap rest with
      | '\x7d' :: rest => some (.obj [], rest)
      | rest => (members rest).map (Prod.map ofMembers id)
    else if c = '-' ∨ c.isDigit then readNumber? (c :: rest)
    else readWord? (c :: rest)

/-- What follows an item, if more items are read so. -/
def afterItem (v : Json) (rest : List Char) : Option (List Json × List Char) :=
  match skipGap rest with
  | ',' :: rest => (items rest).map (Prod.map (v :: ·) id)
  | ']' :: rest => some ([v], rest)
  | _ => none

/-- The items of an array up to its end, if values and more items are read so. -/
def itemsStep (cs : List Char) : Option (List Json × List Char) :=
  (value cs).bind fun (v, rest) => afterItem items v rest

/-- A key and the colon after it. -/
def readKey? (cs : List Char) : Option (Json × List Char) :=
  match skipGap cs with
  | '"' :: rest =>
    (readParts rest).bind fun (parts, rest) =>
      match skipGap rest with
      | ':' :: rest => some (ofParts parts, rest)
      | _ => none
  | _ => none

/-- What follows a member, if more members are read so. -/
def afterMember (k v : Json) (rest : List Char) : Option (List (Json × Json) × List Char) :=
  match skipGap rest with
  | ',' :: rest => (members rest).map (Prod.map ((k, v) :: ·) id)
  | '\x7d' :: rest => some ([(k, v)], rest)
  | _ => none

/-- The members of an object up to its end, if values and more members are read so. -/
def membersStep (cs : List Char) : Option (List (Json × Json) × List Char) :=
  (readKey? cs).bind fun (k, rest) => (value rest).bind fun (v, rest) => afterMember members k v rest

end Step

theorem readValue_succ (fuel : Nat) : readValue (fuel + 1) = valueStep (readItems fuel) (readMembers fuel) := by
  funext cs
  rw [readValue, valueStep]
  rfl

theorem readItems_succ (fuel : Nat) : readItems (fuel + 1) = itemsStep (readValue fuel) (readItems fuel) := by
  funext cs
  rw [readItems, itemsStep]
  cases readValue fuel cs <;> rfl

theorem readMembers_succ (fuel : Nat) : readMembers (fuel + 1) = membersStep (readValue fuel) (readMembers fuel) := by
  funext cs
  rw [readMembers, membersStep, readKey?]
  rcases skipGap cs with _ | ⟨c, cs⟩
  · rfl
  · by_cases hc : c = '"'
    · subst hc
      cases hparts : readParts cs with
      | none => simp [hparts]
      | some result =>
        rcases hgap : skipGap result.2 with _ | ⟨d, ds⟩
        · simp [hparts, hgap]
        · by_cases hd : d = ':'
          · subst hd
            simp only [hparts, hgap, Option.bind_some]
            cases readValue fuel ds <;> rfl
          · simp [hparts, hgap, hd]
    · simp [hc]

/-- A reader takes what it reads. -/
def Reads {α : Type} (read : List Char → Option (α × List Char)) : Prop :=
  ∀ ⦃cs a rest⦄, read cs = some (a, rest) → Takes cs rest

variable {value : List Char → Option (Json × List Char)} {items : List Char → Option (List Json × List Char)}
  {members : List Char → Option (List (Json × Json) × List Char)}

theorem Reads.map {α β : Type} {read : List Char → Option (α × List Char)} {f : α → β} {b : β} (h : Reads read)
    (hread : (read cs).map (Prod.map f id) = some (b, rest)) : Takes cs rest := by
  obtain ⟨⟨a, rest'⟩, ha, hresult⟩ := Option.map_eq_some_iff.1 hread
  obtain rfl : rest' = rest := congrArg Prod.snd hresult
  exact h ha

theorem reads_valueStep (hitems : Reads items) (hmembers : Reads members) : Reads (valueStep items members) := by
  intro cs v rest h
  unfold valueStep at h
  split at h
  · cases h
  next c after hgap =>
  split_ifs at h with hquote hbracket hbrace hnumber
  · subst hquote
    obtain ⟨⟨parts, rest'⟩, hparts, hpair⟩ := Option.map_eq_some_iff.1 h
    obtain ⟨-, rfl⟩ := Prod.mk.inj hpair
    exact (takes_token hgap (by decide) (by decide)).plain (takesPlain_readParts hparts)
  · subst hbracket
    refine (takes_token hgap (by decide) (by decide)).trans ?_
    split at h
    · next rest' hclose =>
      obtain ⟨-, rfl⟩ := Prod.mk.inj (Option.some.inj h)
      exact takes_token hclose (by decide) (by decide)
    · exact (hitems.map h).gap
  · subst hbrace
    refine (takes_token hgap (by decide) (by decide)).trans ?_
    split at h
    · next rest' hclose =>
      obtain ⟨-, rfl⟩ := Prod.mk.inj (Option.some.inj h)
      exact takes_token hclose (by decide) (by decide)
    · exact (hmembers.map h).gap
  · exact takes_number hgap hnumber h
  · exact takes_word hgap h

theorem reads_afterItem (hitems : Reads items) (v : Json) : Reads (afterItem items v) := by
  intro cs vs rest h
  unfold afterItem at h
  split at h
  · next hgap => exact (takes_token hgap (by decide) (by decide)).trans (hitems.map h)
  · next hgap =>
    obtain ⟨-, rfl⟩ := Prod.mk.inj (Option.some.inj h)
    exact takes_token hgap (by decide) (by decide)
  · cases h

theorem reads_itemsStep (hvalue : Reads value) (hitems : Reads items) : Reads (itemsStep value items) := by
  intro cs vs rest h
  obtain ⟨⟨v, after⟩, hv, hafter⟩ := Option.bind_eq_some_iff.1 h
  exact (hvalue hv).trans (reads_afterItem hitems v hafter)

theorem reads_readKey? : Reads readKey? := by
  intro cs k rest h
  unfold readKey? at h
  split at h
  · next after hgap =>
    obtain ⟨⟨parts, rest'⟩, hparts, hcolon⟩ := Option.bind_eq_some_iff.1 h
    dsimp only at hcolon
    split at hcolon
    · next hgap' =>
      obtain ⟨-, rfl⟩ := Prod.mk.inj (Option.some.inj hcolon)
      exact ((takes_token hgap (by decide) (by decide)).plain (takesPlain_readParts hparts)).trans
        (takes_token hgap' (by decide) (by decide))
    · cases hcolon
  · cases h

theorem reads_afterMember (hmembers : Reads members) (k v : Json) : Reads (afterMember members k v) := by
  intro cs ms rest h
  unfold afterMember at h
  split at h
  · next hgap => exact (takes_token hgap (by decide) (by decide)).trans (hmembers.map h)
  · next hgap =>
    obtain ⟨-, rfl⟩ := Prod.mk.inj (Option.some.inj h)
    exact takes_token hgap (by decide) (by decide)
  · cases h

theorem reads_membersStep (hvalue : Reads value) (hmembers : Reads members) : Reads (membersStep value members) := by
  intro cs ms rest h
  obtain ⟨⟨k, after⟩, hk, h⟩ := Option.bind_eq_some_iff.1 h
  obtain ⟨⟨v, after'⟩, hv, hafter⟩ := Option.bind_eq_some_iff.1 h
  exact ((reads_readKey? hk).trans (hvalue hv)).trans (reads_afterMember hmembers k v hafter)

theorem reads (fuel : Nat) : Reads (readValue fuel) ∧ Reads (readItems fuel) ∧ Reads (readMembers fuel) := by
  induction fuel with
  | zero => exact ⟨fun _ _ _ h => (nomatch h), fun _ _ _ h => (nomatch h), fun _ _ _ h => (nomatch h)⟩
  | succ fuel ih =>
    obtain ⟨hvalue, hitems, hmembers⟩ := ih
    rw [readValue_succ, readItems_succ, readMembers_succ]
    exact ⟨reads_valueStep hitems hmembers, reads_itemsStep hvalue hitems, reads_membersStep hvalue hmembers⟩

theorem takes_value {fuel : Nat} (h : readValue fuel cs = some (v, rest)) : Takes cs rest := (reads fuel).1 h

/-! ## More fuel -/

/-- Two readers agree on the texts that are shorter. -/
def AgreeBelow {α : Type} (n : Nat) (read read' : List Char → Option (α × List Char)) : Prop :=
  ∀ cs, cs.length < n → read cs = read' cs

theorem length_skipGap_le (cs : List Char) : (skipGap cs).length ≤ cs.length :=
  (List.dropWhile_sublist isGap).length_le

theorem length_of_skipGap (h : skipGap cs = c :: rest) : rest.length < cs.length := by
  have hle := length_skipGap_le cs
  rw [h, List.length_cons] at hle
  omega

theorem valueStep_congr {items' : List Char → Option (List Json × List Char)}
    {members' : List Char → Option (List (Json × Json) × List Char)} (hitems : AgreeBelow cs.length items items')
    (hmembers : AgreeBelow cs.length members members') : valueStep items members cs = valueStep items' members' cs := by
  unfold valueStep
  cases hgap : skipGap cs with
  | nil => rfl
  | cons c after =>
    have hlt := Nat.lt_of_le_of_lt (length_skipGap_le after) (length_of_skipGap hgap)
    dsimp only
    split_ifs
    · rfl
    · split
      · rfl
      · rw [hitems _ hlt]
    · split
      · rfl
      · rw [hmembers _ hlt]
    · rfl
    · rfl

theorem afterItem_congr {items' : List Char → Option (List Json × List Char)}
    (h : AgreeBelow cs.length items items') (v : Json) : afterItem items v cs = afterItem items' v cs := by
  unfold afterItem
  split
  · next hgap => rw [h _ (length_of_skipGap hgap)]
  · rfl
  · rfl

theorem itemsStep_congr {value' : List Char → Option (Json × List Char)}
    {items' : List Char → Option (List Json × List Char)} (hreads : Reads value) (hvalue : value cs = value' cs)
    (hitems : AgreeBelow cs.length items items') : itemsStep value items cs = itemsStep value' items' cs := by
  rw [itemsStep, itemsStep, ← hvalue]
  refine Option.bind_congr fun ⟨v, after⟩ hv => afterItem_congr (fun ds hds => hitems ds ?_) v
  exact Nat.lt_trans hds (hreads hv).length_lt

theorem afterMember_congr {members' : List Char → Option (List (Json × Json) × List Char)}
    (h : AgreeBelow cs.length members members') (k v : Json) :
    afterMember members k v cs = afterMember members' k v cs := by
  unfold afterMember
  split
  · next hgap => rw [h _ (length_of_skipGap hgap)]
  · rfl
  · rfl

theorem membersStep_congr {value' : List Char → Option (Json × List Char)}
    {members' : List Char → Option (List (Json × Json) × List Char)} (hreads : Reads value)
    (hvalue : AgreeBelow cs.length value value') (hmembers : AgreeBelow cs.length members members') :
    membersStep value members cs = membersStep value' members' cs := by
  refine Option.bind_congr fun ⟨k, afterKey⟩ hk => ?_
  have hkey := (reads_readKey? hk).length_lt
  dsimp only
  rw [← hvalue afterKey hkey]
  refine Option.bind_congr fun ⟨v, after⟩ hv => afterMember_congr (fun ds hds => hmembers ds ?_) k v
  exact Nat.lt_trans hds (Nat.lt_trans (hreads hv).length_lt hkey)

/-- A value needs a level for itself and one for its items, for each character that it takes. -/
theorem stable (fuel : Nat) :
    (∀ cs, 2 * cs.length + 1 ≤ fuel → readValue (fuel + 1) cs = readValue fuel cs) ∧
    (∀ cs, 2 * cs.length + 2 ≤ fuel → readItems (fuel + 1) cs = readItems fuel cs) ∧
    (∀ cs, 2 * cs.length + 2 ≤ fuel → readMembers (fuel + 1) cs = readMembers fuel cs) := by
  induction fuel with
  | zero => exact ⟨fun _ h => (nomatch h), fun _ h => (nomatch h), fun _ h => (nomatch h)⟩
  | succ fuel ih =>
    obtain ⟨hvalue, hitems, hmembers⟩ := ih
    have hreads := (reads (fuel + 1)).1
    refine ⟨fun cs h => ?_, fun cs h => ?_, fun cs h => ?_⟩
    · rw [readValue_succ (fuel + 1), readValue_succ fuel]
      exact valueStep_congr (fun ds hds => hitems ds (by omega)) (fun ds hds => hmembers ds (by omega))
    · have hstep : itemsStep (readValue (fuel + 1)) (readItems (fuel + 1)) cs =
          itemsStep (readValue fuel) (readItems fuel) cs :=
        itemsStep_congr hreads (hvalue cs (by omega)) fun ds hds => hitems ds (by omega)
      rwa [← readItems_succ (fuel + 1), ← readItems_succ fuel] at hstep
    · have hstep : membersStep (readValue (fuel + 1)) (readMembers (fuel + 1)) cs =
          membersStep (readValue fuel) (readMembers fuel) cs :=
        membersStep_congr hreads (fun ds hds => hvalue ds (by omega)) fun ds hds => hmembers ds (by omega)
      rwa [← readMembers_succ (fuel + 1), ← readMembers_succ fuel] at hstep

theorem readValue_stable {fuel : Nat} (h : 2 * cs.length + 1 ≤ fuel) :
    readValue fuel cs = readValue (2 * cs.length + 1) cs := by
  induction fuel, h using Nat.le_induction with
  | base => rfl
  | succ fuel h ih => rw [(stable fuel).1 cs h, ih]

theorem read?_eq {fuel : Nat} (h : 2 * cs.length + 1 ≤ fuel) :
    read? cs = (readValue fuel cs).bind fun (v, rest) => if (skipGap rest).isEmpty then some v else none := by
  rw [read?, readValue_stable h]
  cases readValue (2 * cs.length + 1) cs <;> rfl

/-- In an accepted text each line begins with gaps and a character that begins a token, or holds nothing but gaps. -/
theorem laid_of_read? (h : read? cs = some v) :
    ∃ front gap, cs = front ++ gap ∧ BeginsLine (skipGap front) ∧ Laid front ∧ ∀ x ∈ gap, isGap x = true := by
  rw [read?_eq (Nat.le_refl _)] at h
  obtain ⟨⟨v', rest⟩, hv, hrest⟩ := Option.bind_eq_some_iff.1 h
  obtain ⟨hempty, -⟩ := Option.ite_none_right_eq_some.1 hrest
  obtain ⟨front, hcs, hbegins, hlaid⟩ := takes_value hv
  exact ⟨front, rest, hcs, hbegins, hlaid, List.dropWhile_eq_nil_iff.1 (List.isEmpty_iff.1 hempty)⟩

end Scriptorium.Json
