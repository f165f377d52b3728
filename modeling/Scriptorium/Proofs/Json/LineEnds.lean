import Mathlib.Data.Option.Basic
import Scriptorium.Proofs.Json.Taking

/-!
# Line ends in JSON

A CR before a line end and the gaps at the end of a text make no difference to what is read: two texts that differ in
nothing else are read as the same value, or neither is read (`read?_eq_of_alike`). Inside a string a line end makes both
texts fail, so no case needs to know where the strings are.
-/

namespace Scriptorium.Json

open Text Decimal

variable {α β : Type} {cs ds rest : List Char} {c : Char}

/-- The texts differ in CRs before line ends, and in the gaps that they end with. -/
inductive Alike : List Char → List Char → Prop where
  | keep (c : Char) {cs ds : List Char} (h : Alike cs ds) : Alike (c :: cs) (c :: ds)
  | skip {cs ds : List Char} (h : Alike ('\n' :: cs) ds) : Alike ('\r' :: '\n' :: cs) ds
  | ends {cs ds : List Char} (hcs : ∀ x ∈ cs, isGap x = true) (hds : ∀ x ∈ ds, isGap x = true) : Alike cs ds

namespace Alike

theorem append (front : List Char) (h : Alike cs ds) : Alike (front ++ cs) (front ++ ds) := by
  induction front with
  | nil => exact h
  | cons c front ih => exact ih.keep c

theorem refl (cs : List Char) : Alike cs cs := by
  simpa using append cs (ends (by simp) (by simp) : Alike [] [])

end Alike

/-- No token goes on into the text: it begins with a line end, or only gaps are left. -/
def Halts (cs : List Char) : Prop :=
  (∀ x ∈ cs, isGap x = true) ∨ cs.head? = some '\n' ∨ cs.head? = some '\r'

theorem Halts.isGap_head? (h : Halts cs) : ∀ x ∈ cs.head?, isGap x = true := by
  intro x hx
  rcases h with h | h | h
  · exact h x (List.mem_of_mem_head? hx)
  · obtain rfl := Option.some.inj (h.symm.trans hx)
    rfl
  · obtain rfl := Option.some.inj (h.symm.trans hx)
    rfl

/-- The texts go on with the same character, or no token goes on into either. -/
theorem Alike.view (h : Alike cs ds) :
    (∃ c cs' ds', cs = c :: cs' ∧ ds = c :: ds' ∧ Alike cs' ds') ∨ (Halts cs ∧ Halts ds) := by
  induction h with
  | keep c h => exact .inl ⟨c, _, _, rfl, rfl, h⟩
  | skip h ih =>
    refine .inr ⟨.inr (.inr rfl), ?_⟩
    rcases ih with ⟨c, cs', ds', hcs, rfl, -⟩ | ⟨-, hds⟩
    · obtain ⟨rfl, -⟩ := List.cons.inj hcs
      exact .inr (.inl rfl)
    · exact hds
  | ends hcs hds => exact .inr ⟨.inl hcs, .inl hds⟩

theorem Alike.afterGap (h : Alike cs ds) : Alike (skipGap cs) (skipGap ds) := by
  induction h with
  | keep c h ih =>
    by_cases hc : isGap c = true
    · simpa [skipGap, List.dropWhile_cons, hc] using ih
    · simpa [skipGap, List.dropWhile_cons, hc] using h.keep c
  | skip h ih => exact ih
  | ends hcs hds =>
    rw [skipGap, skipGap, List.dropWhile_eq_nil_iff.2 hcs, List.dropWhile_eq_nil_iff.2 hds]
    exact refl []

theorem Halts.skipGap_eq_nil (h : Halts (skipGap cs)) : skipGap cs = [] := by
  cases hcs : skipGap cs with
  | nil => rfl
  | cons c tail =>
    have hgap : isGap c = false := by
      have hhead := List.head?_dropWhile_not isGap cs
      rw [show cs.dropWhile isGap = c :: tail from hcs] at hhead
      simpa using hhead
    have hc := h.isGap_head? c (by rw [hcs]; rfl)
    rw [hgap] at hc
    cases hc

/-- Behind the gaps the texts go on with the same character, or nothing is left of either. -/
theorem Alike.afterGap_view (h : Alike cs ds) :
    (∃ c cs' ds', skipGap cs = c :: cs' ∧ skipGap ds = c :: ds' ∧ Alike cs' ds') ∨
      (skipGap cs = [] ∧ skipGap ds = []) := by
  rcases h.afterGap.view with hcons | ⟨hcs, hds⟩
  · exact .inl hcons
  · exact .inr ⟨hcs.skipGap_eq_nil, hds.skipGap_eq_nil⟩

/-! ## Readers -/

/-- The same was read and the rests are alike, or nothing was read. -/
def Agree (x y : Option (α × List Char)) : Prop := Option.Rel (fun r s => r.1 = s.1 ∧ Alike r.2 s.2) x y

theorem Agree.some (a : α) (h : Alike cs ds) : Agree (some (a, cs)) (some (a, ds)) := Option.Rel.some ⟨rfl, h⟩

theorem Agree.none : Agree (none : Option (α × List Char)) none := Option.Rel.none

theorem Agree.bind {x y : Option (α × List Char)} {f g : α × List Char → Option (β × List Char)} (h : Agree x y)
    (hfg : ∀ a cs ds, x = Option.some (a, cs) → Alike cs ds → Agree (f (a, cs)) (g (a, ds))) :
    Agree (x.bind f) (y.bind g) := by
  cases h with
  | none => exact .none
  | @some r s hrs =>
    obtain ⟨a, cs⟩ := r
    obtain ⟨b, ds⟩ := s
    obtain ⟨rfl, halike⟩ := hrs
    exact hfg a cs ds rfl halike

theorem Agree.map {x y : Option (α × List Char)} (h : Agree x y) (f : α → β) :
    Agree (x.map (Prod.map f id)) (y.map (Prod.map f id)) := by
  rw [Option.map_eq_bind, Option.map_eq_bind]
  exact h.bind fun a cs ds _ halike => .some (f a) halike

/-- The reader reads the same from texts that are alike. -/
def Respects (read : List Char → Option (α × List Char)) : Prop :=
  ∀ ⦃cs ds⦄, Alike cs ds → Agree (read cs) (read ds)

/-! ## Words without gaps -/

theorem Alike.front {word : List Char} (hword : ∀ x ∈ word, isGap x = false) (h : Alike (word ++ cs) ds) :
    ∃ ds', ds = word ++ ds' ∧ Alike cs ds' := by
  induction word generalizing ds with
  | nil => exact ⟨ds, rfl, h⟩
  | cons w word ih =>
    rw [List.forall_mem_cons] at hword
    rcases h.view with ⟨c, cs', ds', hcs, rfl, htail⟩ | ⟨hhalts, -⟩
    · obtain ⟨rfl, rfl⟩ := List.cons.inj hcs
      obtain ⟨ds'', rfl, halike⟩ := ih hword.2 htail
      exact ⟨ds'', rfl, halike⟩
    · exact absurd (hhalts.isGap_head? w rfl) (by simp [hword.1])

theorem Alike.front' {word : List Char} (hword : ∀ x ∈ word, isGap x = false) (h : Alike cs (word ++ ds)) :
    ∃ cs', cs = word ++ cs' := by
  induction word generalizing cs with
  | nil => exact ⟨cs, rfl⟩
  | cons w word ih =>
    rw [List.forall_mem_cons] at hword
    rcases h.view with ⟨c, cs', ds', rfl, hds, htail⟩ | ⟨-, hhalts⟩
    · obtain ⟨rfl, rfl⟩ := List.cons.inj hds
      obtain ⟨cs'', rfl⟩ := ih hword.2 htail
      exact ⟨cs'', rfl⟩
    · exact absurd (hhalts.isGap_head? w rfl) (by simp [hword.1])

/-- The reader reads a word without gaps, whatever follows it. -/
def ReadsWord (read : List Char → Option (α × List Char)) : Prop :=
  ∀ ⦃cs a rest⦄, read cs = some (a, rest) →
    ∃ word, cs = word ++ rest ∧ (∀ x ∈ word, isGap x = false) ∧ ∀ rest, read (word ++ rest) = some (a, rest)

theorem ReadsWord.respects {read : List Char → Option (α × List Char)} (h : ReadsWord read) : Respects read := by
  intro cs ds halike
  cases hcs : read cs with
  | some result =>
    obtain ⟨a, rest⟩ := result
    obtain ⟨word, rfl, hword, hread⟩ := h hcs
    obtain ⟨ds', rfl, hrest⟩ := halike.front hword
    rw [hread]
    exact .some a hrest
  | none =>
    cases hds : read ds with
    | none => exact .none
    | some result =>
      obtain ⟨a, rest⟩ := result
      obtain ⟨word, rfl, hword, hread⟩ := h hds
      obtain ⟨cs', rfl⟩ := halike.front' hword
      rw [hread] at hcs
      cases hcs

/-! ## Strings -/

/-- Four hexadecimal digits. -/
def readUnit? : List Char → Option (Nat × List Char)
  | a :: b :: c :: d :: cs => (hex4? a b c d).map (·, cs)
  | _ => none

/-- What follows a backslash. -/
def readEscape? : List Char → Option (Part × List Char)
  | [] => none
  | e :: cs => if e = 'u' then (readUnit? cs).map (Prod.map .unit id) else (unescape? e).map (.char ·, cs)

theorem readParts_cons (c : Char) (cs : List Char) :
    readParts (c :: cs) =
      if c = '"' then some ([], cs)
      else if c = '\\' then
        (readEscape? cs).bind fun (part, rest) => (readParts rest).map (Prod.map (part :: ·) id)
      else if c.toNat < 32 then none
      else (readParts cs).map (Prod.map (.char c :: ·) id) := by
  by_cases hc : c = '\\'
  · subst hc
    rcases cs with _ | ⟨e, cs⟩
    · rfl
    · by_cases he : e = 'u'
      · subst he
        rcases cs with _ | ⟨a, _ | ⟨b, _ | ⟨c, _ | ⟨d, cs⟩⟩⟩⟩
        · rfl
        · rfl
        · rfl
        · rfl
        · simp only [readParts, readEscape?, readUnit?, if_true]
          cases hex4? a b c d <;> cases hparts : readParts cs <;> simp [hparts, Prod.map]
      · rw [readParts.eq_def]
        simp only [readEscape?, he, if_false]
        cases unescape? e <;> cases hparts : readParts cs <;> simp [hparts, Prod.map]
  · rw [readParts, if_neg hc]
    · rfl
    · exact fun heq => absurd heq hc
    · exact fun _ _ heq => absurd heq hc

theorem isGap_of_hexValue? {n : Nat} (h : hexValue? c = some n) : isGap c = false := by
  by_contra hgap
  simp only [isGap, Bool.not_eq_false, Bool.or_eq_true, beq_iff_eq] at hgap
  rcases hgap with ((rfl | rfl) | rfl) | rfl <;> cases h

theorem readsWord_readUnit? : ReadsWord readUnit? := by
  intro cs u rest h
  unfold readUnit? at h
  split at h
  · next a b c d cs =>
    obtain ⟨u', hhex, hpair⟩ := Option.map_eq_some_iff.1 h
    obtain ⟨rfl, rfl⟩ := Prod.mk.inj hpair
    refine ⟨[a, b, c, d], rfl, ?_, fun rest => by simp [readUnit?, hhex]⟩
    obtain ⟨na, ha, hhex⟩ := Option.bind_eq_some_iff.1 hhex
    obtain ⟨nb, hb, hhex⟩ := Option.bind_eq_some_iff.1 hhex
    obtain ⟨nc, hc, hhex⟩ := Option.bind_eq_some_iff.1 hhex
    obtain ⟨nd, hd, -⟩ := Option.bind_eq_some_iff.1 hhex
    simp [isGap_of_hexValue? ha, isGap_of_hexValue? hb, isGap_of_hexValue? hc, isGap_of_hexValue? hd]
  · cases h

theorem isGap_of_unescape? {d : Char} (h : unescape? c = some d) : isGap c = false := by
  by_contra hgap
  simp only [isGap, Bool.not_eq_false, Bool.or_eq_true, beq_iff_eq] at hgap
  rcases hgap with ((rfl | rfl) | rfl) | rfl <;> cases h

theorem readsWord_readEscape? : ReadsWord readEscape? := by
  intro cs part rest h
  unfold readEscape? at h
  split at h
  · cases h
  next e cs =>
  split_ifs at h with he
  · subst he
    obtain ⟨⟨u, rest'⟩, hu, hpair⟩ := Option.map_eq_some_iff.1 h
    obtain ⟨rfl, rfl⟩ := Prod.mk.inj hpair
    obtain ⟨word, rfl, hword, hread⟩ := readsWord_readUnit? hu
    refine ⟨'u' :: word, rfl, List.forall_mem_cons.2 ⟨rfl, hword⟩, fun rest => ?_⟩
    simp [readEscape?, hread]
  · obtain ⟨d, hd, hpair⟩ := Option.map_eq_some_iff.1 h
    obtain ⟨rfl, rfl⟩ := Prod.mk.inj hpair
    exact ⟨[e], rfl, by simp [isGap_of_unescape? hd], fun rest => by simp [readEscape?, he, hd]⟩

/-- No string ends in a text that a token cannot go on into. -/
theorem readParts_of_halts (h : Halts cs) : readParts cs = none := by
  have hnone (gap : List Char) (hgap : ∀ x ∈ gap, isGap x = true) : readParts gap = none := by
    induction gap with
    | nil => rfl
    | cons x gap ih =>
      rw [List.forall_mem_cons] at hgap
      have hquote : x ≠ '"' := by rintro rfl; cases hgap.1
      have hbackslash : x ≠ '\\' := by rintro rfl; cases hgap.1
      rw [readParts_cons, if_neg hquote, if_neg hbackslash, ih hgap.2]
      simp
  rcases h with h | h | h
  · exact hnone cs h
  all_goals
    obtain ⟨tail, rfl⟩ := List.head?_eq_some_iff.1 h
    rw [readParts_cons]
    rfl

theorem respects_readParts : Respects readParts := by
  intro cs ds h
  induction hn : cs.length using Nat.strong_induction_on generalizing cs ds with
  | _ n ih =>
    rcases h.view with ⟨c, cs, ds, rfl, rfl, htail⟩ | ⟨hcs, hds⟩
    · rw [readParts_cons, readParts_cons]
      split_ifs
      · exact .some [] htail
      · refine (readsWord_readEscape?.respects htail).bind fun part rest rest' hpart hrest => ?_
        obtain ⟨word, rfl, -⟩ := readsWord_readEscape? hpart
        refine (ih rest.length ?_ hrest rfl).map _
        rw [← hn, List.length_cons, List.length_append]
        omega
      · exact .none
      · exact (ih cs.length (by rw [← hn]; simp) htail rfl).map _
    · rw [readParts_of_halts hcs, readParts_of_halts hds]
      exact .none

/-! ## Numbers and words -/

theorem alike_spanDigits (h : Alike cs ds) :
    (spanDigits cs).1 = (spanDigits ds).1 ∧ Alike (spanDigits cs).2 (spanDigits ds).2 := by
  have hstop {cs : List Char} (h : Halts cs) : spanDigits cs = ([], cs) := by
    cases cs with
    | nil => rfl
    | cons c cs =>
      have hdigit : c.isDigit = false := by
        by_contra hdigit
        have hgap := isGap_of_isBlank (isBlank_of_isDigit (Bool.not_eq_false _ ▸ hdigit))
        rw [h.isGap_head? c rfl] at hgap
        cases hgap
      simp [spanDigits, hdigit]
  induction cs generalizing ds with
  | nil =>
    rcases h.view with ⟨c, cs', ds', hnil, -⟩ | ⟨-, hds⟩
    · cases hnil
    · rw [hstop hds]
      exact ⟨rfl, h⟩
  | cons x cs ih =>
    rcases h.view with ⟨c, cs', ds', hcs, rfl, htail⟩ | ⟨hcs, hds⟩
    · obtain ⟨rfl, rfl⟩ := List.cons.inj hcs
      by_cases hx : x.isDigit = true
      · simpa [spanDigits, hx] using ih htail
      · simpa [spanDigits, hx] using h
    · rw [hstop hcs, hstop hds]
      exact ⟨rfl, h⟩

theorem Halts.endsNumber (h : Halts cs) : EndsNumber cs := by
  intro c hc
  have hgap := h.isGap_head? c hc
  refine ⟨?_, ?_, ?_, ?_⟩
  · by_contra hdigit
    rw [isGap_of_isBlank (isBlank_of_isDigit (Bool.not_eq_false _ ▸ hdigit))] at hgap
    cases hgap
  all_goals
    rintro rfl
    cases hgap

theorem respects_readFraction? : Respects readFraction? := by
  intro cs ds h
  rcases h.view with ⟨c, cs, ds, rfl, rfl, htail⟩ | ⟨hcs, hds⟩
  · by_cases hc : c = '.'
    · subst hc
      obtain ⟨hdigits, hrest⟩ := alike_spanDigits htail
      simp only [readFraction?, hdigits]
      split
      · exact .none
      · exact .some _ hrest
    · have hplain (cs : List Char) : readFraction? (c :: cs) = some ([], c :: cs) := by
        rw [readFraction?]
        rintro _ ⟨⟩
        exact hc rfl
      rw [hplain, hplain]
      exact .some [] h
  · rw [readFraction?_of_endsNumber hcs.endsNumber, readFraction?_of_endsNumber hds.endsNumber]
    exact .some [] h

/-- The sign of an exponent, if it has one. -/
def spanSign : List Char → List Char × List Char
  | '+' :: cs => (['+'], cs)
  | '-' :: cs => (['-'], cs)
  | cs => ([], cs)

theorem alike_spanSign (h : Alike cs ds) :
    (spanSign cs).1 = (spanSign ds).1 ∧ Alike (spanSign cs).2 (spanSign ds).2 := by
  have hstop {cs : List Char} (hcs : ∀ x ∈ cs.head?, x ≠ '+' ∧ x ≠ '-') : spanSign cs = ([], cs) := by
    unfold spanSign
    split
    · exact absurd rfl (hcs '+' rfl).1
    · exact absurd rfl (hcs '-' rfl).2
    · rfl
  have hsign {cs : List Char} (h : Halts cs) : ∀ x ∈ cs.head?, x ≠ '+' ∧ x ≠ '-' := by
    intro x hx
    have hgap := h.isGap_head? x hx
    constructor <;> rintro rfl <;> cases hgap
  rcases h.view with ⟨c, cs, ds, rfl, rfl, htail⟩ | ⟨hcs, hds⟩
  · by_cases hplus : c = '+'
    · subst hplus
      exact ⟨rfl, htail⟩
    · by_cases hminus : c = '-'
      · subst hminus
        exact ⟨rfl, htail⟩
      · rw [hstop (by simp [hplus, hminus]), hstop (by simp [hplus, hminus])]
        exact ⟨rfl, h⟩
  · rw [hstop (hsign hcs), hstop (hsign hds)]
    exact ⟨rfl, h⟩

theorem readPower?_mark {e : Char} (he : e = 'e' ∨ e = 'E') (cs : List Char) :
    readPower? (e :: cs) = if (spanDigits (spanSign cs).2).1.isEmpty then none else
      some (e :: (spanSign cs).1 ++ (spanDigits (spanSign cs).2).1, (spanDigits (spanSign cs).2).2) := by
  rw [readPower?.eq_def]
  simp only [if_pos he]
  rfl

theorem respects_readPower? : Respects readPower? := by
  intro cs ds h
  rcases h.view with ⟨e, cs, ds, rfl, rfl, htail⟩ | ⟨hcs, hds⟩
  · by_cases he : e = 'e' ∨ e = 'E'
    · obtain ⟨hsign, hbody⟩ := alike_spanSign htail
      obtain ⟨hdigits, hrest⟩ := alike_spanDigits hbody
      rw [readPower?_mark he, readPower?_mark he, hsign, hdigits]
      split
      · exact .none
      · exact .some _ hrest
    · rw [readPower?.eq_def, readPower?.eq_def]
      simp only [if_neg he]
      exact .some [] h
  · rw [readPower?_of_endsNumber hcs.endsNumber, readPower?_of_endsNumber hds.endsNumber]
    exact .some [] h

theorem respects_readUnsigned? (negative : Bool) : Respects (readUnsigned? negative) := by
  intro cs ds h
  obtain ⟨hdigits, hrest⟩ := alike_spanDigits h
  simp only [readUnsigned?, hdigits]
  split
  · exact .none
  · refine (respects_readFraction? hrest).bind fun fraction cs ds _ hrest => ?_
    refine (respects_readPower? hrest).bind fun power cs ds _ hrest => ?_
    dsimp only
    split
    · exact .some _ hrest
    · exact .some _ hrest

theorem respects_readNumber? : Respects readNumber? := by
  intro cs ds h
  have hplain {cs : List Char} (hcs : ∀ x ∈ cs.head?, x ≠ '-') : readNumber? cs = readUnsigned? false cs := by
    unfold readNumber?
    split
    · exact absurd rfl (hcs '-' rfl)
    · rfl
  have hsign {cs : List Char} (h : Halts cs) : ∀ x ∈ cs.head?, x ≠ '-' := by
    rintro x hx rfl
    cases h.isGap_head? '-' hx
  rcases h.view with ⟨c, cs, ds, rfl, rfl, htail⟩ | ⟨hcs, hds⟩
  · by_cases hminus : c = '-'
    · subst hminus
      exact respects_readUnsigned? true htail
    · rw [hplain (by simpa using hminus), hplain (by simpa using hminus)]
      exact respects_readUnsigned? false h
  · rw [hplain (hsign hcs), hplain (hsign hds)]
    exact respects_readUnsigned? false h

theorem readsWord_ite {word : String} (hword : word.toList.all (!isGap ·) = true) (a : α) :
    ReadsWord fun cs => if word.toList.isPrefixOf cs then some (a, cs.drop word.length) else none := by
  intro cs b rest h
  obtain ⟨hfront, hpair⟩ := Option.ite_none_right_eq_some.1 h
  obtain ⟨rfl, rfl⟩ := Prod.mk.inj (Option.some.inj hpair)
  obtain ⟨more, rfl⟩ := List.isPrefixOf_iff_prefix.1 hfront
  have hdrop (rest : List Char) : (word.toList ++ rest).drop word.length = rest := by
    rw [← String.length_toList, List.drop_left]
  simp only [List.all_eq_true, Bool.not_eq_true'] at hword
  refine ⟨word.toList, by rw [hdrop], hword, fun rest => ?_⟩
  dsimp only
  rw [hdrop, if_pos (List.isPrefixOf_iff_prefix.2 (List.prefix_append _ _))]

theorem agree_findSome? {γ : Type} {f g : γ → Option (α × List Char)} {xs : List γ}
    (h : ∀ x ∈ xs, Agree (f x) (g x)) : Agree (xs.findSome? f) (xs.findSome? g) := by
  induction xs with
  | nil => exact .none
  | cons x xs ih =>
    rw [List.forall_mem_cons] at h
    rw [List.findSome?_cons, List.findSome?_cons]
    obtain ⟨hx, hxs⟩ := h
    generalize f x = y, g x = z at hx
    cases hx with
    | none => exact ih hxs
    | some hrel => exact Option.Rel.some hrel

theorem respects_readWord? : Respects readWord? := by
  intro cs ds h
  refine agree_findSome? fun (word, v) hmem => (readsWord_ite ?_ v).respects h
  simp only [List.mem_cons, List.not_mem_nil, or_false, Prod.mk.injEq] at hmem
  rcases hmem with ⟨rfl, -⟩ | ⟨rfl, -⟩ | ⟨rfl, -⟩ <;> rfl

/-! ## Values -/

variable {value : List Char → Option (Json × List Char)} {items : List Char → Option (List Json × List Char)}
  {members : List Char → Option (List (Json × Json) × List Char)}

theorem respects_valueStep (hitems : Respects items) (hmembers : Respects members) :
    Respects (valueStep items members) := by
  intro cs ds h
  unfold valueStep
  rcases h.afterGap_view with ⟨c, cs, ds, hcs, hds, htail⟩ | ⟨hcs, hds⟩
  · rw [hcs, hds]
    dsimp only
    split_ifs
    · exact (respects_readParts htail).map _
    · -- the text after the bracket goes on with the closing one, or with an item
      rcases htail.afterGap_view with ⟨d, cs, ds, hcs, hds, hrest⟩ | ⟨hcs, hds⟩
      · rw [hcs, hds]
        by_cases hd : d = ']'
        · subst hd
          exact .some _ hrest
        · split
          · next heq => exact absurd (List.cons.inj heq).1 hd
          · split
            · next heq => exact absurd (List.cons.inj heq).1 hd
            · exact (hitems (hrest.keep d)).map _
      · rw [hcs, hds]
        exact (hitems (.refl [])).map _
    · rcases htail.afterGap_view with ⟨d, cs, ds, hcs, hds, hrest⟩ | ⟨hcs, hds⟩
      · rw [hcs, hds]
        by_cases hd : d = '\x7d'
        · subst hd
          exact .some _ hrest
        · split
          · next heq => exact absurd (List.cons.inj heq).1 hd
          · split
            · next heq => exact absurd (List.cons.inj heq).1 hd
            · exact (hmembers (hrest.keep d)).map _
      · rw [hcs, hds]
        exact (hmembers (.refl [])).map _
    · exact respects_readNumber? (htail.keep c)
    · exact respects_readWord? (htail.keep c)
  · rw [hcs, hds]
    exact .none

theorem afterItem_eq_none {v : Json} (h : ∀ x ∈ (skipGap cs).head?, x ≠ ',' ∧ x ≠ ']') :
    afterItem items v cs = none := by
  unfold afterItem
  split
  · next hcs => exact absurd rfl (h ',' (by rw [hcs]; rfl)).1
  · next hcs => exact absurd rfl (h ']' (by rw [hcs]; rfl)).2
  · rfl

theorem respects_afterItem (hitems : Respects items) (v : Json) : Respects (afterItem items v) := by
  intro cs ds h
  rcases h.afterGap_view with ⟨c, cs', ds', hcs, hds, htail⟩ | ⟨hcs, hds⟩
  · by_cases hcomma : c = ','
    · subst hcomma
      simp only [afterItem, hcs, hds]
      exact (hitems htail).map _
    · by_cases hclose : c = ']'
      · subst hclose
        simp only [afterItem, hcs, hds]
        exact .some _ htail
      · rw [afterItem_eq_none (by simp [hcs, hcomma, hclose]), afterItem_eq_none (by simp [hds, hcomma, hclose])]
        exact .none
  · rw [afterItem_eq_none (by simp [hcs]), afterItem_eq_none (by simp [hds])]
    exact .none

theorem respects_itemsStep (hvalue : Respects value) (hitems : Respects items) :
    Respects (itemsStep value items) := fun _ _ h =>
  (hvalue h).bind fun v _ _ _ hrest => respects_afterItem hitems v hrest

/-- The colon after a key. -/
def readColon? (k : Json) (cs : List Char) : Option (Json × List Char) :=
  match skipGap cs with
  | ':' :: rest => some (k, rest)
  | _ => none

theorem respects_readColon? (k : Json) : Respects (readColon? k) := by
  have hnone {cs : List Char} (h : ∀ x ∈ (skipGap cs).head?, x ≠ ':') : readColon? k cs = none := by
    unfold readColon?
    split
    · next hcs => exact absurd rfl (h ':' (by rw [hcs]; rfl))
    · rfl
  intro cs ds h
  rcases h.afterGap_view with ⟨c, cs', ds', hcs, hds, htail⟩ | ⟨hcs, hds⟩
  · by_cases hcolon : c = ':'
    · subst hcolon
      simp only [readColon?, hcs, hds]
      exact .some k htail
    · rw [hnone (by simp [hcs, hcolon]), hnone (by simp [hds, hcolon])]
      exact .none
  · rw [hnone (by simp [hcs]), hnone (by simp [hds])]
    exact .none

theorem respects_readKey? : Respects readKey? := by
  have hnone {cs : List Char} (h : ∀ x ∈ (skipGap cs).head?, x ≠ '"') : readKey? cs = none := by
    unfold readKey?
    split
    · next hcs => exact absurd rfl (h '"' (by rw [hcs]; rfl))
    · rfl
  intro cs ds h
  rcases h.afterGap_view with ⟨c, cs', ds', hcs, hds, htail⟩ | ⟨hcs, hds⟩
  · by_cases hquote : c = '"'
    · subst hquote
      simp only [readKey?, hcs, hds]
      exact (respects_readParts htail).bind fun parts _ _ _ hrest => respects_readColon? (ofParts parts) hrest
    · rw [hnone (by simp [hcs, hquote]), hnone (by simp [hds, hquote])]
      exact .none
  · rw [hnone (by simp [hcs]), hnone (by simp [hds])]
    exact .none

theorem afterMember_eq_none {k v : Json} (h : ∀ x ∈ (skipGap cs).head?, x ≠ ',' ∧ x ≠ '\x7d') :
    afterMember members k v cs = none := by
  unfold afterMember
  split
  · next hcs => exact absurd rfl (h ',' (by rw [hcs]; rfl)).1
  · next hcs => exact absurd rfl (h '\x7d' (by rw [hcs]; rfl)).2
  · rfl

theorem respects_afterMember (hmembers : Respects members) (k v : Json) : Respects (afterMember members k v) := by
  intro cs ds h
  rcases h.afterGap_view with ⟨c, cs', ds', hcs, hds, htail⟩ | ⟨hcs, hds⟩
  · by_cases hcomma : c = ','
    · subst hcomma
      simp only [afterMember, hcs, hds]
      exact (hmembers htail).map _
    · by_cases hclose : c = '\x7d'
      · subst hclose
        simp only [afterMember, hcs, hds]
        exact .some _ htail
      · rw [afterMember_eq_none (by simp [hcs, hcomma, hclose]),
          afterMember_eq_none (by simp [hds, hcomma, hclose])]
        exact .none
  · rw [afterMember_eq_none (by simp [hcs]), afterMember_eq_none (by simp [hds])]
    exact .none

theorem respects_membersStep (hvalue : Respects value) (hmembers : Respects members) :
    Respects (membersStep value members) := fun _ _ h =>
  (respects_readKey? h).bind fun k _ _ _ hkey => (hvalue hkey).bind fun v _ _ _ hrest =>
    respects_afterMember hmembers k v hrest

theorem respects (fuel : Nat) :
    Respects (readValue fuel) ∧ Respects (readItems fuel) ∧ Respects (readMembers fuel) := by
  induction fuel with
  | zero => exact ⟨fun _ _ _ => .none, fun _ _ _ => .none, fun _ _ _ => .none⟩
  | succ fuel ih =>
    obtain ⟨hvalue, hitems, hmembers⟩ := ih
    rw [readValue_succ, readItems_succ, readMembers_succ]
    exact ⟨respects_valueStep hitems hmembers, respects_itemsStep hvalue hitems,
      respects_membersStep hvalue hmembers⟩

/-- Texts that are alike are read as the same value, or neither is read. -/
theorem read?_eq_of_alike (h : Alike cs ds) : read? cs = read? ds := by
  let fuel := max (2 * cs.length + 1) (2 * ds.length + 1)
  rw [read?_eq (le_max_left _ _ : 2 * cs.length + 1 ≤ fuel), read?_eq (le_max_right _ _ : 2 * ds.length + 1 ≤ fuel)]
  have hagree := (respects fuel).1 h
  generalize readValue fuel cs = x, readValue fuel ds = y at hagree
  cases hagree with
  | none => rfl
  | @some r s hrs =>
    obtain ⟨v, rest⟩ := r
    obtain ⟨w, rest'⟩ := s
    obtain ⟨rfl, hrest⟩ := hrs
    rcases hrest.afterGap_view with ⟨c, cs', ds', hcs, hds, -⟩ | ⟨hcs, hds⟩
    · simp [hcs, hds]
    · simp [hcs, hds]

end Scriptorium.Json
