import Scriptorium.Proofs.Editor.LineBreaks
import Scriptorium.Proofs.Editor.TokenCut

/-!
# Laying out a text

A change that goes through a text and touches nothing but the blanks around its line ends (`LaysOut`) keeps the lexemes
of the code, except that it goes on in strings too: `LaysOut.keepsCode`. The lexer and the trimming of lines do not
agree about the vertical tab, which is a symbol for the one and a blank for the other, so none may stand in the code at
the end of a line.
-/

namespace Scriptorium.Editor

open Text

variable {cs x y back body : List Char} {c e : Char} {kind : LexemeKind} {level n : Nat} {f : List Char → List Char}

/-- Blanks with a line end in them, at the end of which a line begins or the text ends, give way to a new line end and
its indentation. Blanks at the end of the text may be left out. -/
inductive Relays (f : List Char → List Char) (cs : List Char) : Prop where
  | line (blanks indent rest : List Char) (text : cs = blanks ++ rest) (blank : ∀ c ∈ blanks, isBlank c = true)
      (breaks : '\n' ∈ blanks) (ends : blanks.getLast? = some '\n' ∨ rest = [])
      (gap : ∀ c ∈ indent, (isAsciiBlank c || !isAscii c) = true) (more : '\n' ∈ indent → 2 ≤ blanks.count '\n')
      (laid : f cs = '\n' :: (indent ++ f rest)) : Relays f cs
  | last (blank : ∀ c ∈ cs, isBlank c = true) (laid : f cs = []) : Relays f cs

/-- The change keeps every character of a text but the blanks around its line ends, and what stands behind a character
that is no blank is changed by itself. -/
structure LaysOut (f : List Char → List Char) : Prop where
  nil : f [] = []
  step (c : Char) (cs : List Char) : f (c :: cs) = c :: f cs ∨ Relays f (c :: cs)
  append (x : List Char) {e : Char} (mark : isBlank e = false) (y : List Char) : f (x ++ e :: y) = f (x ++ [e]) ++ f y

/-- A string is closed, and no long bracket of a comment is open. -/
structure Lexeme.Closed (l : Lexeme) : Prop where
  string : l.kind = .string → Terminated .string l.text
  comment : l.kind = .comment → ∀ level, ¬ IsOpenLong level (l.text.drop 2)

/-- All strings and long brackets of the text are closed. -/
def AllClosed (cs : List Char) : Prop := ∀ l, .lexeme l ∈ pieces cs → l.Closed

/-- A vertical tab stands in the code, with nothing but blanks behind it on its line. -/
def TabEndsLine (ps : List Piece) : Prop :=
  ∃ front back, ps = front ++ .lexeme ⟨.symbol, ['\x0b']⟩ :: back ∧
    ∀ c ∈ (back.map Piece.text).flatten.takeWhile (· != '\n'), isBlank c = true

/-- The lexeme in a text that is laid out. -/
def Lexeme.layOut (f : List Char → List Char) (l : Lexeme) : Lexeme :=
  if l.kind = .string then { l with text := f l.text } else l

/-! ## Blanks -/

theorem isBlank_of_range (h : 33 ≤ c.toNat ∧ c.toNat < 128) : isBlank c = false := by
  simp only [isBlank, Bool.or_eq_false_iff, Bool.and_eq_false_iff, decide_eq_false_iff_not, beq_eq_false_iff_ne]
  omega

theorem isBlank_of_isNameChar (h : isNameChar c = true) : isBlank c = false := by
  refine isBlank_of_range ?_
  simp only [isNameChar, Char.isAlphanum, Bool.or_eq_true, beq_iff_eq] at h
  rcases h with (halpha | hdigit) | rfl
  · rw [isAlpha_iff_toNat] at halpha
    omega
  · rw [Char.isDigit_iff_toNat] at hdigit
    have h0 : '0'.toNat = 48 := rfl
    have h9 : '9'.toNat = 57 := rfl
    omega
  · decide

theorem isBlank_of_isNumeralChar (h : isNumeralChar c = true) : isBlank c = false := by
  have hmarks : ['x', 'X', 'p', 'P', '.', '+', '-'].all (!isBlank ·) := rfl
  simp only [List.all_eq_true, Bool.not_eq_true'] at hmarks
  have hrange {a b : Char} (ha : 33 ≤ a.toNat) (hb : b.toNat < 128) (h : a ≤ c ∧ c ≤ b) : isBlank c = false :=
    isBlank_of_range
      ⟨Nat.le_trans ha (UInt32.le_iff_toNat_le.1 h.1), Nat.lt_of_le_of_lt (UInt32.le_iff_toNat_le.1 h.2) hb⟩
  rw [isNumeralChar, Bool.or_eq_true] at h
  rcases h with h | h
  · simp only [isHexDigit, Bool.or_eq_true, Bool.and_eq_true, decide_eq_true_eq] at h
    rcases h with (hdigit | hlower) | hupper
    · exact isBlank_of_isNameChar (isNameChar_of_isDigit hdigit)
    · exact hrange (by decide) (by decide) hlower
    · exact hrange (by decide) (by decide) hupper
  · exact hmarks c (of_decide_eq_true h)

theorem isBlank_of_mem_longSymbols {op : List Char} (h : op ∈ longSymbols) : ∀ e ∈ op, isBlank e = false := by
  have hall : longSymbols.all (·.all (!isBlank ·)) := by decide
  simp only [List.all_eq_true, Bool.not_eq_true'] at hall
  exact hall op h

/-- Nothing but strings and comments holds a blank, unless it is one. -/
theorem not_blank_of_lexeme (h : lexemeLength? (c :: cs) = some (kind, n))
    (hkind : ¬ (kind = .string ∨ kind = .comment)) (hc : isBlank c = false) :
    ∀ e ∈ (c :: cs).take n, isBlank e = false := by
  rcases lexemeLength?_cases h with ⟨_, -, -, rfl, -⟩ | ⟨rfl, -⟩ | ⟨_, rfl, -⟩ | ⟨-, -, rfl⟩ | ⟨-, -, rfl⟩ | ⟨-, rfl⟩
  · exact absurd (.inr rfl) hkind
  · exact absurd (.inl rfl) hkind
  · exact absurd (.inl rfl) hkind
  · exact fun e he => isBlank_of_isNumeralChar (numberLength_take _ e he)
  · rw [← List.prefix_iff_eq_take.1 (List.takeWhile_prefix isNameChar)]
    exact fun e he => isBlank_of_isNameChar (List.mem_takeWhile_imp he)
  · by_cases hlong : 1 < symbolLength (c :: cs)
    · exact isBlank_of_mem_longSymbols (take_symbolLength hlong)
    · have hone : symbolLength (c :: cs) = 1 := by
        have := symbolLength_pos (c :: cs)
        omega
      rw [hone]
      simpa using hc

theorem Terminated.exists_cons (h : Terminated kind cs) : ∃ c x, cs = c :: x ∧ isBlank c = false := by
  cases h with
  | quoted isQuote _ =>
    refine ⟨_, _, rfl, ?_⟩
    rcases isQuote with rfl | rfl <;> rfl
  | longString long =>
    obtain ⟨body, rfl, -⟩ := long
    exact ⟨'[', _, rfl, rfl⟩
  | longComment long => exact ⟨'-', _, rfl, rfl⟩

theorem Terminated.exists_concat (h : Terminated kind cs) : ∃ x e, cs = x ++ [e] ∧ isBlank e = false := by
  cases h with
  | quoted isQuote _ =>
    refine ⟨_, _, (List.cons_append ..).symm, ?_⟩
    rcases isQuote with rfl | rfl <;> rfl
  | longString long =>
    obtain ⟨x, hx⟩ := List.getLast?_eq_some_iff.1 long.getLast?
    exact ⟨x, ']', hx, rfl⟩
  | @longComment _ tail long =>
    obtain ⟨x, hx⟩ := List.getLast?_eq_some_iff.1 long.getLast?
    exact ⟨'-' :: '-' :: x, ']', by rw [hx]; rfl, rfl⟩

theorem Terminated.lexemeLength? (h : Terminated kind cs) (rest : List Char) :
    lexemeLength? (cs ++ rest) = some (kind, cs.length) := by
  cases h with
  | quoted isQuote escaped =>
    have hscan := lexemeLength?_quoted isQuote escaped rest
    simpa [Nat.add_comm] using hscan
  | longString long => exact lexemeLength?_long long rest
  | longComment long => exact lexemeLength?_longComment long rest

/-! ## What is kept -/

theorem Relays.blank_head (h : Relays f (c :: cs)) : isBlank c = true := by
  cases h with
  | line blanks _ _ text blank breaks _ _ _ _ =>
    cases blanks with
    | nil => cases breaks
    | cons b blanks =>
      obtain ⟨rfl, -⟩ := List.cons.inj text
      exact blank c List.mem_cons_self
  | last blank _ => exact blank c List.mem_cons_self

namespace LaysOut

theorem cons (hf : LaysOut f) (hc : isBlank c = false) (cs : List Char) : f (c :: cs) = c :: f cs := by
  refine (hf.step c cs).resolve_right fun hrelays => ?_
  rw [hrelays.blank_head] at hc
  cases hc

theorem append_plain (hf : LaysOut f) (hx : ∀ e ∈ x, isBlank e = false) (y : List Char) : f (x ++ y) = x ++ f y := by
  induction x with
  | nil => rfl
  | cons c x ih =>
    rw [List.cons_append, hf.cons (hx c List.mem_cons_self), ih fun e he => hx e (List.mem_cons_of_mem c he),
      List.cons_append]

/-- The text is kept up to a line end, or up to blanks that are left out at its end. -/
theorem agrees (hf : LaysOut f) (cs : List Char) :
    ∃ x y z, cs = x ++ y ∧ f cs = x ++ z ∧ EndsLine z ∧ (y = [] → z = []) ∧ ∀ e ∈ y.head?, isBlank e = true := by
  induction cs with
  | nil => exact ⟨[], [], [], rfl, hf.nil, endsLine_nil, fun _ => rfl, by simp⟩
  | cons c cs ih =>
    rcases hf.step c cs with hkeep | hrelays
    · obtain ⟨x, y, z, hcs, hlaid, hline, hend, hhead⟩ := ih
      exact ⟨c :: x, y, z, by rw [hcs, List.cons_append], by rw [hkeep, hlaid, List.cons_append], hline, hend, hhead⟩
    · refine ⟨[], c :: cs, f (c :: cs), rfl, rfl, ?_, fun hnil => absurd hnil (List.cons_ne_nil _ _), ?_⟩
      · cases hrelays with
        | line _ _ _ _ _ _ _ _ _ laid => exact laid ▸ endsLine_lineFeed _
        | last _ laid => exact laid ▸ endsLine_nil
      · intro e he
        obtain rfl := Option.some.inj he
        exact hrelays.blank_head

end LaysOut

/-! ## Strings and long brackets -/

theorem isBlank_of_mem_closer (level : Nat) : ∀ e ∈ closer level, isBlank e = false := by
  intro e he
  simp only [closer, List.mem_cons, List.mem_append, List.mem_replicate, List.not_mem_nil, or_false] at he
  rcases he with rfl | ⟨-, rfl⟩ | rfl <;> rfl

theorem isBlank_of_mem_opener (level : Nat) : ∀ e ∈ opener level, isBlank e = false := by
  intro e he
  simp only [opener, List.mem_cons, List.mem_append, List.mem_replicate, List.not_mem_nil, or_false] at he
  rcases he with rfl | ⟨-, rfl⟩ | rfl <;> rfl

/-- Where a long bracket is closed does not depend on what stands before the closer. -/
theorem endsFirst_append_iff (hx : ∀ e ∈ x, e ≠ ']') :
    EndsFirst (closer level) (x ++ cs) ↔ EndsFirst (closer level) cs := by
  induction x with
  | nil => rfl
  | cons c x ih =>
    have hc : ∀ tail, ¬ closer level <+: c :: tail := fun tail hlead =>
      hx c List.mem_cons_self (List.cons_prefix_cons.1 hlead).1.symm
    rw [← ih fun e he => hx e (List.mem_cons_of_mem c he), List.cons_append]
    constructor
    · intro h
      rcases h.cons_cases with heq | ⟨-, hrest⟩
      · exact absurd (heq ▸ List.prefix_refl _) (hc (x ++ cs))
      · exact hrest
    · exact .cons (hc _)

/-- A line end in a quoted string stands behind a backslash, not behind blanks alone. -/
theorem IsQuotedBody.lineFeed_not_mem {quote : Char} (h : IsQuotedBody quote body) (hquote : isBlank quote = false)
    {blanks rest : List Char} (htext : body ++ [quote] = blanks ++ rest) (hblank : ∀ e ∈ blanks, isBlank e = true) :
    '\n' ∉ blanks ∧ rest ≠ [] := by
  constructor
  · intro hline
    induction h generalizing blanks with
    | nil =>
      cases blanks with
      | nil => cases hline
      | cons b blanks =>
        obtain ⟨rfl, -⟩ := List.cons.inj htext
        rw [hblank quote List.mem_cons_self] at hquote
        cases hquote
    | @plain c _ _ _ not_lineFeed _ ih =>
      cases blanks with
      | nil => cases hline
      | cons b blanks =>
        obtain ⟨rfl, htail⟩ := List.cons.inj htext
        refine ih htail (fun e he => hblank e (List.mem_cons_of_mem c he)) ?_
        exact (List.mem_cons.1 hline).resolve_left not_lineFeed.symm
    | escape c _ _ =>
      cases blanks with
      | nil => cases hline
      | cons b blanks =>
        obtain ⟨rfl, -⟩ := List.cons.inj htext
        cases hblank '\\' List.mem_cons_self
  · rintro rfl
    rw [List.append_nil] at htext
    rw [hblank quote (htext ▸ List.mem_append_right body (List.mem_singleton_self quote))] at hquote
    cases hquote

/-- Gaps in a quoted string are as they are. -/
theorem IsQuotedBody.gaps_append {quote : Char} (h : IsQuotedBody quote body) (hquote : quote = '"' ∨ quote = '\'')
    {gaps : List Char} (hgap : ∀ c ∈ gaps, (isAsciiBlank c || !isAscii c) = true) (hline : '\n' ∉ gaps) :
    IsQuotedBody quote (gaps ++ body) := by
  induction gaps with
  | nil => exact h
  | cons c gaps ih =>
    have hc := hgap c List.mem_cons_self
    refine .plain ?_ ?_ (fun heq => hline (heq ▸ List.mem_cons_self))
      (ih (fun e he => hgap e (List.mem_cons_of_mem c he)) fun h => hline (List.mem_cons_of_mem c h))
    · rintro rfl
      rcases hquote with rfl | rfl <;> cases hc
    · rintro rfl
      cases hc

namespace LaysOut

theorem quotedBody (hf : LaysOut f) {quote : Char} (hquote : quote = '"' ∨ quote = '\'')
    (h : IsQuotedBody quote body) : ∃ laid, f (body ++ [quote]) = laid ++ [quote] ∧ IsQuotedBody quote laid := by
  have hmark : isBlank quote = false := by rcases hquote with rfl | rfl <;> rfl
  induction h with
  | nil => exact ⟨[], by rw [List.nil_append, hf.cons hmark, hf.nil], .nil⟩
  | @plain c body not_quote not_backslash not_lineFeed rest ih =>
    obtain ⟨laid, hlaid, hbody⟩ := ih
    have hwhole : IsQuotedBody quote (c :: body) := .plain not_quote not_backslash not_lineFeed rest
    rcases hf.step c (body ++ [quote]) with hkeep | hrelays
    · exact ⟨c :: laid, by rw [List.cons_append, hkeep, hlaid]; rfl, .plain not_quote not_backslash not_lineFeed hbody⟩
    · cases hrelays with
      | line blanks _ _ text blank breaks _ _ _ _ => exact absurd breaks (hwhole.lineFeed_not_mem hmark text blank).1
      | last blank _ => exact absurd rfl (hwhole.lineFeed_not_mem hmark (List.append_nil _).symm blank).2
  | @escape c body rest ih =>
    obtain ⟨laid, hlaid, hbody⟩ := ih
    rw [List.cons_append, List.cons_append, hf.cons rfl]
    rcases hf.step c (body ++ [quote]) with hkeep | hrelays
    · exact ⟨'\\' :: c :: laid, by rw [hkeep, hlaid]; rfl, .escape c hbody⟩
    · cases hrelays with
      | line blanks indent after text blank breaks ends gap more laid' =>
        obtain ⟨b, tail, rfl⟩ := List.exists_cons_of_ne_nil (List.ne_nil_of_mem breaks)
        obtain ⟨rfl, htail⟩ := List.cons.inj text
        obtain ⟨hline, hafter⟩ := rest.lineFeed_not_mem hmark htail fun e he => blank e (List.mem_cons_of_mem c he)
        -- the escaped character is the only line end, and the blanks end with it
        obtain rfl : tail = [] := by
          by_contra htail
          rw [List.getLast?_cons, List.getLast?_eq_some_getLast htail] at ends
          exact hline (Option.some.inj (ends.resolve_right hafter) ▸ List.getLast_mem htail)
        obtain rfl : c = '\n' := (List.mem_singleton.1 breaks).symm
        have hindent : '\n' ∉ indent := fun hmem => by simpa using more hmem
        obtain rfl : after = body ++ [quote] := htail.symm
        refine ⟨'\\' :: '\n' :: (indent ++ laid), ?_, .escape '\n' (hbody.gaps_append hquote gap hindent)⟩
        rw [laid', hlaid]
        simp
      | last blank _ =>
        have hend := hmark
        rw [blank quote (List.mem_cons_of_mem c (List.mem_append_right body (List.mem_singleton_self quote)))] at hend
        cases hend

theorem longBody (hf : LaysOut f) (h : EndsFirst (closer level) body) : EndsFirst (closer level) (f body) := by
  induction hn : body.length using Nat.strong_induction_on generalizing body with
  | _ n ih =>
  cases body with
  | nil => exact absurd (List.suffix_nil.1 h.suffix) (by simp [closer])
  | cons c body =>
    rcases h.cons_cases with heq | ⟨hfront, hrest⟩
    · have hkeep := hf.append_plain (isBlank_of_mem_closer level) []
      rw [List.append_nil, hf.nil, List.append_nil] at hkeep
      rw [heq, hkeep]
      exact .self
    · rcases hf.step c body with hkeep | hrelays
      · rw [hkeep]
        refine .cons (fun hlead => hfront ?_) (ih body.length (by rw [← hn]; simp) hrest rfl)
        -- a closer that is there now has no blank in it, so it was there before
        obtain ⟨x, y, z, rfl, hlaid, hline, -⟩ := hf.agrees body
        rw [hlaid] at hlead
        have hcloser : '\n' ∉ closer level := fun hmem => by cases isBlank_of_mem_closer level _ hmem
        have hkept : closer level <+: c :: x := prefix_of_endsLine hcloser hline hlead
        exact hkept.trans (List.prefix_append (c :: x) y)
      · cases hrelays with
        | line blanks indent after text blank breaks ends gap more laid =>
          have hblanks : ∀ e ∈ blanks, e ≠ ']' := by
            rintro e he rfl
            cases blank _ he
          have hindent : ∀ e ∈ '\n' :: indent, e ≠ ']' := by
            rintro e he rfl
            rcases List.mem_cons.1 he with he | he
            · cases he
            · cases gap _ he
          have hlength : after.length < n := by
            have hcount := congrArg List.length text
            have hpos := List.length_pos_of_mem breaks
            rw [List.length_append] at hcount
            omega
          rw [text, endsFirst_append_iff hblanks] at h
          rw [laid, ← List.cons_append, endsFirst_append_iff hindent]
          exact ih after.length hlength h rfl
        | last blank laid =>
          cases blank ']' (h.suffix.subset List.mem_cons_self)

theorem terminated (hf : LaysOut f) (h : Terminated kind cs) : Terminated kind (f cs) := by
  have hlong {level : Nat} {cs : List Char} (h : IsLong level cs) : IsLong level (f cs) := by
    obtain ⟨body, rfl, hbody⟩ := h
    exact ⟨f body, hf.append_plain (isBlank_of_mem_opener level) body, hf.longBody hbody⟩
  cases h with
  | quoted isQuote escaped =>
    obtain ⟨laid, hlaid, hbody⟩ := hf.quotedBody isQuote escaped
    rw [hf.cons (by rcases isQuote with rfl | rfl <;> rfl), hlaid]
    exact .quoted isQuote hbody
  | longString long => exact .longString (hlong long)
  | longComment long =>
    rw [hf.cons rfl, hf.cons rfl]
    exact .longComment (hlong long)

theorem append_terminated (hf : LaysOut f) (h : Terminated kind cs) (back : List Char) :
    f (cs ++ back) = f cs ++ f back := by
  obtain ⟨x, e, rfl, he⟩ := h.exists_concat
  rw [List.append_assoc, List.singleton_append, hf.append x he]

/-! ## Plain lexemes -/

/-- A lexeme that is no string and no comment is found in front of what is laid out. -/
theorem lexemeLength?_append (hf : LaysOut f) (h : lexemeLength? (c :: (x ++ y)) = some (kind, x.length + 1))
    (hkind : ¬ (kind = .string ∨ kind = .comment)) (hback : EndsLine back) :
    lexemeLength? (c :: (x ++ (f y ++ back))) = some (kind, x.length + 1) := by
  obtain ⟨front, rest, laid, rfl, hlaid, hline, -, hhead⟩ := hf.agrees y
  rw [hlaid, List.append_assoc, ← List.append_assoc]
  rw [← List.append_assoc] at h
  refine lexemeLength?_exchange h (by rw [List.length_append]; omega) ?_ ?_ fun hother => absurd hother hkind
  · rintro - ⟨_, -, -, hpoint⟩
    have := hhead '.' hpoint
    cases this
  · rcases hline.cases with rfl | ⟨tail, rfl⟩
    · exact hback
    · exact endsLine_lineFeed _

end LaysOut

/-! ## Pieces of a text -/

/-- A blank as a piece of a text. -/
def blankPiece (c : Char) : Piece := if c = '\x0b' then .lexeme ⟨.symbol, [c]⟩ else .gap c

theorem lexemeLength?_verticalTab (cs : List Char) : lexemeLength? ('\x0b' :: cs) = some (.symbol, 1) := rfl

theorem pieces_blanks {blanks : List Char} (h : ∀ c ∈ blanks, isBlank c = true) (rest : List Char) :
    pieces (blanks ++ rest) = blanks.map blankPiece ++ pieces rest := by
  induction blanks with
  | nil => rfl
  | cons c blanks ih =>
    rw [List.cons_append, List.map_cons, List.cons_append, ← ih fun e he => h e (List.mem_cons_of_mem c he), pieces]
    by_cases hc : c = '\x0b'
    · subst hc
      rw [lexemeLength?_verticalTab]
      rfl
    · have hgap := isGap_of_isBlank (h c List.mem_cons_self) hc
      rw [lexemeLength?_eq_none_iff.2 hgap, blankPiece, if_neg hc]

theorem codeLexemes_blank (hc : isBlank c = true) (cs : List Char) :
    codeLexemes (c :: cs) = (blankPiece c).code?.toList ++ codeLexemes cs := by
  have hpieces : pieces (c :: cs) = [blankPiece c] ++ pieces cs := pieces_blanks (List.forall_mem_singleton.2 hc) cs
  rw [codeLexemes_eq, codeLexemes_eq, hpieces, List.singleton_append, List.filterMap_cons]
  cases (blankPiece c).code? <;> rfl

theorem pieces_append_of_lexemeLength? (h : lexemeLength? (x ++ y) = some (kind, x.length)) :
    pieces (x ++ y) = .lexeme ⟨kind, x⟩ :: pieces y := by
  cases x with
  | nil =>
    cases y with
    | nil => cases h
    | cons c y =>
      rw [List.nil_append] at h
      exact absurd (lexemeLength?_bounds h).1 (Nat.lt_irrefl 0)
  | cons c x =>
    rw [List.cons_append] at h ⊢
    rw [pieces, h]
    simp

theorem codeLexemes_append_of_lexemeLength? (h : lexemeLength? (x ++ y) = some (kind, x.length)) :
    codeLexemes (x ++ y) = (Piece.code? (.lexeme ⟨kind, x⟩)).toList ++ codeLexemes y := by
  rw [codeLexemes_eq, codeLexemes_eq, pieces_append_of_lexemeLength? h, List.filterMap_cons]
  cases Piece.code? (.lexeme ⟨kind, x⟩) <;> rfl

/-! ## Texts that can be laid out -/

/-- All strings and long brackets are closed, and no vertical tab in the code ends a line. -/
structure IsOrderly (cs : List Char) : Prop where
  closed : AllClosed cs
  no_tab : ¬ TabEndsLine (pieces cs)

namespace IsOrderly

theorem behind {ps : List Piece} (h : IsOrderly cs) (hcut : pieces cs = ps ++ pieces y) : IsOrderly y where
  closed l hl := h.closed l (hcut ▸ List.mem_append_right ps hl)
  no_tab := by
    rintro ⟨front, back, hsplit, hblank⟩
    exact h.no_tab ⟨ps ++ front, back, by rw [hcut, hsplit, List.append_assoc], hblank⟩

theorem lineFeed (h : IsOrderly cs) : IsOrderly ('\n' :: cs) where
  closed l hl := by
    rw [pieces_lineFeed] at hl
    rcases List.mem_cons.1 hl with hl | hl
    · cases hl
    · exact h.closed l hl
  no_tab := by
    rintro ⟨front, back, hsplit, hblank⟩
    rw [pieces_lineFeed] at hsplit
    cases front with
    | nil => cases hsplit
    | cons _ front => exact h.no_tab ⟨front, back, (List.cons.inj hsplit).2, hblank⟩

/-- Blanks that give way to a line end are gaps. -/
theorem gaps {blanks rest : List Char} (h : IsOrderly (blanks ++ rest)) (hblank : ∀ c ∈ blanks, isBlank c = true)
    (hends : blanks.getLast? = some '\n' ∨ rest = []) : ∀ c ∈ blanks, (isAsciiBlank c || !isAscii c) = true := by
  intro c hc
  refine isGap_of_isBlank (hblank c hc) ?_
  rintro rfl
  obtain ⟨front, back, rfl⟩ := List.append_of_mem hc
  refine h.no_tab ⟨front.map blankPiece, back.map blankPiece ++ pieces rest, ?_, ?_⟩
  · rw [pieces_blanks hblank, List.map_append, List.map_cons, List.append_assoc, List.cons_append]
    rfl
  · have hback : ∀ e ∈ back, isBlank e = true := fun e he => hblank e (by simp [he])
    rw [← pieces_blanks hback, pieces_join]
    intro e he
    rcases hends with hlast | rfl
    · -- the line ends within the blanks
      have hline : '\n' ∈ back := by
        rw [List.getLast?_append_of_ne_nil _ (List.cons_ne_nil _ _), List.getLast?_cons] at hlast
        cases hnil : back.getLast? with
        | none =>
          rw [hnil] at hlast
          cases hlast
        | some d =>
          rw [hnil] at hlast
          obtain rfl := Option.some.inj hlast
          exact List.mem_of_getLast? hnil
      obtain ⟨before, after, rfl⟩ := List.append_of_mem hline
      rw [List.append_assoc, List.cons_append, takeWhile_append_mark (by simp)] at he
      exact hback e (List.mem_append_left _ ((List.takeWhile_sublist _).subset he))
    · rw [List.append_nil] at he
      exact hback e ((List.takeWhile_sublist _).subset he)

theorem all_gaps (h : IsOrderly cs) (hblank : ∀ c ∈ cs, isBlank c = true) :
    ∀ c ∈ cs, (isAsciiBlank c || !isAscii c) = true := by
  rw [← List.append_nil cs] at h
  exact h.gaps hblank (.inr rfl)

end IsOrderly

/-! ## Comments of one line -/

/-- An open comment of which no long bracket is open is one of a single line. -/
theorem exists_lineComment (h : Unterminated kind cs) (hclosed : Lexeme.Closed ⟨kind, cs⟩) :
    ∃ body, kind = .comment ∧ cs = '-' :: '-' :: body ∧ ∀ level, ¬ opener level <+: body := by
  cases h with
  | quoted isQuote escaped => exact absurd (hclosed.string rfl) (Unterminated.quoted isQuote escaped).not_terminated
  | escaping isQuote escaped => exact absurd (hclosed.string rfl) (Unterminated.escaping isQuote escaped).not_terminated
  | longString long => exact absurd (hclosed.string rfl) (Unterminated.longString long).not_terminated
  | longComment long => exact absurd long (hclosed.comment rfl _)
  | lineComment short => exact ⟨_, rfl, rfl, short⟩

theorem lineFeed_not_mem_of_lineComment
    (h : lexemeLength? ('-' :: '-' :: (body ++ y)) = some (.comment, ('-' :: '-' :: body).length))
    (hshort : ∀ level, ¬ opener level <+: body) : '\n' ∉ body := by
  rw [lexemeLength?_comment, commentLength, List.drop_succ_cons, List.drop_succ_cons, List.drop_zero] at h
  obtain ⟨-, hlength⟩ := Prod.mk.inj (Option.some.inj h)
  cases hlevel : bracketLevel? (body ++ y) with
  | some level =>
    rw [hlevel] at hlength
    dsimp only at hlength
    have hcut := bracketLevel?_cut hlevel (by simp only [List.length_cons] at hlength; omega)
    exact absurd (opener_of_bracketLevel? hcut) (hshort level)
  | none =>
    rw [hlevel] at hlength
    have hline := lineFeed_not_mem_of_lineLength (x := '-' :: '-' :: body) (y := y) (Nat.le_of_eq hlength.symm)
    exact fun hmem => hline (by simp [hmem])

namespace LaysOut

/-- The code of the text that is laid out is its code as it was, with its strings laid out, and behind it comes the code
of `back`. -/
def KeepsCode (f : List Char → List Char) (back cs : List Char) : Prop :=
  codeLexemes (f cs ++ back) = (codeLexemes cs).map (Lexeme.layOut f) ++ codeLexemes back

theorem codeLexemes_line {gaps indent after : List Char} (hgaps : ∀ c ∈ gaps, (isAsciiBlank c || !isAscii c) = true)
    (hindent : ∀ c ∈ indent, (isAsciiBlank c || !isAscii c) = true) (hafter : KeepsCode f back after) :
    codeLexemes ('\n' :: (indent ++ f after) ++ back) =
      (codeLexemes (gaps ++ after)).map (Lexeme.layOut f) ++ codeLexemes back := by
  rw [List.cons_append, List.append_assoc, codeLexemes_gap rfl, codeLexemes_gaps hindent, codeLexemes_gaps hgaps]
  exact hafter

theorem codeLexemes_last (hgaps : ∀ c ∈ cs, (isAsciiBlank c || !isAscii c) = true) :
    codeLexemes back = (codeLexemes cs).map (Lexeme.layOut f) ++ codeLexemes back := by
  have hnone := codeLexemes_gaps hgaps []
  rw [List.append_nil, codeLexemes_nil] at hnone
  rw [hnone]
  rfl

/-- Of a comment of one line its front is kept, up to where its line ends. -/
theorem lineComment (hf : LaysOut f) {rest : List Char} (hbody : '\n' ∉ body) (hrest : EndsLine rest)
    (hback : EndsLine back) (hgood : IsOrderly rest)
    (ih : ∀ after, after.length ≤ rest.length → IsOrderly after → KeepsCode f back after) :
    ∃ kept laid, f (body ++ rest) = kept ++ laid ∧ kept <+: body ∧ EndsLine (laid ++ back) ∧
      codeLexemes (laid ++ back) = (codeLexemes rest).map (Lexeme.layOut f) ++ codeLexemes back := by
  induction body with
  | nil =>
    refine ⟨[], f rest, rfl, List.prefix_refl [], ?_, ih rest (Nat.le_refl _) hgood⟩
    rcases hrest.cases with rfl | ⟨tail, rfl⟩
    · rwa [hf.nil]
    · rcases hf.step '\n' tail with hkeep | hrelays
      · exact hkeep ▸ endsLine_lineFeed _
      · cases hrelays with
        | line _ _ _ _ _ _ _ _ _ laid => exact laid ▸ endsLine_lineFeed _
        | last _ laid => rwa [laid]
  | cons c body ihbody =>
    rcases hf.step c (body ++ rest) with hkeep | hrelays
    · obtain ⟨kept, laid, hlaid, hlead, hline, hcode⟩ := ihbody fun h => hbody (List.mem_cons_of_mem c h)
      exact ⟨c :: kept, laid, by rw [List.cons_append, hkeep, hlaid, List.cons_append],
        List.cons_prefix_cons.2 ⟨rfl, hlead⟩, hline, hcode⟩
    · refine ⟨[], _, rfl, List.nil_prefix, ?_⟩
      cases hrelays with
      | line blanks indent after text blank breaks ends gap more laid =>
        -- the line ends behind the comment, among the blanks
        obtain ⟨gaps, rfl, rfl⟩ : ∃ gaps, blanks = c :: body ++ gaps ∧ rest = gaps ++ after := by
          rcases List.append_eq_append_iff.1 (show c :: body ++ rest = blanks ++ after from text) with
            ⟨gaps, rfl, rfl⟩ | ⟨more, hmore, -⟩
          · exact ⟨gaps, rfl, rfl⟩
          · exact absurd (hmore ▸ List.mem_append_left more breaks) hbody
        have hgaps : '\n' ∈ gaps := (List.mem_append.1 breaks).resolve_left hbody
        have hends : gaps.getLast? = some '\n' ∨ after = [] := by
          rwa [List.getLast?_append_of_ne_nil _ (List.ne_nil_of_mem hgaps)] at ends
        have hblank : ∀ e ∈ gaps, isBlank e = true := fun e he => blank e (List.mem_append_right _ he)
        have hafter := ih after (by rw [List.length_append]; omega) (hgood.behind (pieces_blanks hblank after))
        rw [List.cons_append, laid]
        exact ⟨endsLine_lineFeed _, codeLexemes_line (hgood.gaps hblank hends) gap hafter⟩
      | last blank laid =>
        have hblank : ∀ e ∈ rest, isBlank e = true := fun e he =>
          blank e (List.mem_cons_of_mem c (List.mem_append_right body he))
        rw [List.cons_append, laid]
        exact ⟨hback, codeLexemes_last (hgood.all_gaps hblank)⟩

/-! ## The code of a text that is laid out -/

theorem layOut_of_ne {l : Lexeme} (h : l.kind ≠ .string) : l.layOut f = l := if_neg h

theorem layOut_code? {text : List Char} (h : kind = .string ∨ kind = .comment) :
    (Piece.code? (.lexeme ⟨kind, text⟩)).toList.map (Lexeme.layOut f) =
      (Piece.code? (.lexeme ⟨kind, f text⟩)).toList := by
  rcases h with rfl | rfl <;> rfl

/-- What is true behind a lexeme is true of the text that begins with it. -/
theorem codeLexemes_step {text laid rest behind : List Char}
    (hscan : lexemeLength? (text ++ rest) = some (kind, text.length))
    (hlaid : lexemeLength? (laid ++ behind) = some (kind, laid.length))
    (hlexeme : (Piece.code? (.lexeme ⟨kind, laid⟩)).toList =
      (Piece.code? (.lexeme ⟨kind, text⟩)).toList.map (Lexeme.layOut f))
    (ih : codeLexemes behind = (codeLexemes rest).map (Lexeme.layOut f) ++ codeLexemes back) :
    codeLexemes (laid ++ behind) = (codeLexemes (text ++ rest)).map (Lexeme.layOut f) ++ codeLexemes back := by
  rw [codeLexemes_append_of_lexemeLength? hscan, codeLexemes_append_of_lexemeLength? hlaid, hlexeme, ih,
    List.map_append, List.append_assoc]

theorem keepsCode_blank (hf : LaysOut f) (hc : isBlank c = true) (h : IsOrderly (c :: cs))
    (ih : ∀ after, after.length ≤ cs.length → IsOrderly after → KeepsCode f back after) :
    KeepsCode f back (c :: cs) := by
  unfold KeepsCode
  rcases hf.step c cs with hkeep | hrelays
  · have hpieces : pieces (c :: cs) = [blankPiece c] ++ pieces cs := pieces_blanks (List.forall_mem_singleton.2 hc) cs
    have hrest := ih cs (Nat.le_refl _) (h.behind hpieces)
    have hsame : (blankPiece c).code?.toList.map (Lexeme.layOut f) = (blankPiece c).code?.toList := by
      unfold blankPiece
      split <;> rfl
    rw [hkeep, List.cons_append, codeLexemes_blank hc, codeLexemes_blank hc, hrest, List.map_append, hsame,
      List.append_assoc]
  · cases hrelays with
    | line blanks indent after text blank breaks ends gap _ laid =>
      have hlength : after.length ≤ cs.length := by
        have hcount := congrArg List.length text
        have hpos := List.length_pos_of_mem breaks
        rw [List.length_append, List.length_cons] at hcount
        omega
      rw [text] at h
      rw [laid, text]
      exact codeLexemes_line (h.gaps blank ends) gap (ih after hlength (h.behind (pieces_blanks blank after)))
    | last blank laid =>
      rw [laid]
      exact codeLexemes_last (h.all_gaps blank)

theorem keepsCode_lexeme (hf : LaysOut f) (hback : EndsLine back) (hc : isBlank c = false)
    (hscan : lexemeLength? (c :: x ++ y) = some (kind, (c :: x).length)) (h : IsOrderly (c :: x ++ y))
    (ih : ∀ after, after.length ≤ y.length → IsOrderly after → KeepsCode f back after) :
    KeepsCode f back (c :: x ++ y) := by
  unfold KeepsCode
  have hpieces : pieces (c :: x ++ y) = [.lexeme ⟨kind, c :: x⟩] ++ pieces y := pieces_append_of_lexemeLength? hscan
  have hwhole : lexemeLength? (c :: (x ++ y)) = some (kind, x.length + 1) := hscan
  have hclosed := h.closed ⟨kind, c :: x⟩ (hpieces ▸ List.mem_cons_self)
  have hy : IsOrderly y := h.behind hpieces
  by_cases hplain : kind = .string ∨ kind = .comment
  · rcases terminated_or_unterminated hwhole hplain with hend | hopen
    · rw [Nat.add_sub_cancel, List.take_left] at hend
      rw [hf.append_terminated hend, List.append_assoc]
      exact codeLexemes_step hscan ((hf.terminated hend).lexemeLength? _) (layOut_code? hplain).symm
        (ih y (Nat.le_refl _) hy)
    · rw [Nat.add_sub_cancel, List.take_left] at hopen
      obtain ⟨body, rfl, htext, hshort⟩ := exists_lineComment hopen hclosed
      obtain ⟨rfl, rfl⟩ := List.cons.inj htext
      have hline := lineFeed_not_mem_of_lineComment hscan hshort
      have hend := (terminated_or_endsLine hscan hplain).resolve_left hopen.not_terminated
      obtain ⟨kept, laid, hlaid, hlead, hends, hcode⟩ := hf.lineComment hline hend hback hy ih
      have hkept : lexemeLength? ('-' :: '-' :: kept ++ (laid ++ back)) =
          some (.comment, ('-' :: '-' :: kept).length) :=
        lexemeLength?_lineComment (fun hmem => hline (hlead.subset hmem))
          (fun level hopener => hshort level (hopener.trans hlead)) hends
      rw [List.cons_append, List.cons_append, hf.cons rfl, hf.cons rfl, hlaid, List.cons_append, List.cons_append,
        List.append_assoc]
      exact codeLexemes_step hscan hkept rfl hcode
  · have hblank := not_blank_of_lexeme hwhole hplain hc
    rw [List.take_succ_cons, List.take_left] at hblank
    rw [hf.append_plain hblank, List.append_assoc]
    refine codeLexemes_step hscan (hf.lexemeLength?_append hwhole hplain hback) ?_ (ih y (Nat.le_refl _) hy)
    have hsame : Lexeme.layOut f ⟨kind, c :: x⟩ = ⟨kind, c :: x⟩ := layOut_of_ne fun h => hplain (.inl h)
    have hcode : Piece.code? (.lexeme ⟨kind, c :: x⟩) = some ⟨kind, c :: x⟩ := if_neg fun h => hplain (.inr h)
    rw [hcode, Option.toList_some, List.map_singleton, hsame]

/-- A text that is laid out keeps its code, whatever lines come behind it. -/
theorem keepsCode (hf : LaysOut f) (hback : EndsLine back) (h : IsOrderly cs) : KeepsCode f back cs := by
  induction hn : cs.length using Nat.strong_induction_on generalizing cs with
  | _ n ih =>
  have ih {k : Nat} (hk : k < n) (after : List Char) (hafter : after.length ≤ k) (hgood : IsOrderly after) :
      KeepsCode f back after := ih after.length (Nat.lt_of_le_of_lt hafter hk) hgood rfl
  cases cs with
  | nil =>
    unfold KeepsCode
    rw [hf.nil, codeLexemes_nil]
    rfl
  | cons c cs =>
    rw [List.length_cons] at hn
    cases hc : isBlank c with
    | true => exact hf.keepsCode_blank hc h (ih (by omega))
    | false =>
      cases hscan : lexemeLength? (c :: cs) with
      | none =>
        have hgap := lexemeLength?_eq_none_iff.1 hscan
        have hpieces : pieces (c :: cs) = [.gap c] ++ pieces cs := by
          rw [pieces, hscan]
          rfl
        unfold KeepsCode
        rw [hf.cons hc, List.cons_append, codeLexemes_gap hscan, codeLexemes_gap (lexemeLength?_eq_none_iff.2 hgap)]
        exact ih (by omega) cs (Nat.le_refl _) (h.behind hpieces)
      | some found =>
        obtain ⟨kind, k⟩ := found
        obtain ⟨hpos, hle⟩ := lexemeLength?_bounds hscan
        obtain ⟨x, y, rfl, rfl⟩ : ∃ x y, cs = x ++ y ∧ x.length + 1 = k :=
          ⟨cs.take (k - 1), cs.drop (k - 1), (List.take_append_drop _ _).symm, by rw [List.length_take]; omega⟩
        rw [List.length_append] at hn
        exact hf.keepsCode_lexeme hback hc hscan h (ih (by omega))

end LaysOut

end Scriptorium.Editor
