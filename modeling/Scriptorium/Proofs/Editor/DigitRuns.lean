import Scriptorium.Proofs.Editor.CodePosition
import Scriptorium.Proofs.Editor.TokenTiling

/-!
# Digits and the lexemes that hold them

A digit at the start of a word belongs to a numeral, or it is in a string or comment (`kind_of_digit`); and where
a lexeme ends in a name character, no digit follows it (`not_isNameChar_of_digit_follows`). So a run of name characters
that begins with a digit begins in a numeral, and no other run does.
-/

namespace Scriptorium.Editor

open Text

variable {cs x y text back : List Char} {c d : Char} {kind : LexemeKind} {level n offset : Nat} {s t : Token}

/-! ## Tokens at their places -/

/-- A character that can begin a lexeme lies in a token, with some of its text before it and behind it. -/
theorem exists_locate_of_append (offset : Nat) (hd : (isAsciiBlank d || !isAscii d) = false) (hcs : cs = x ++ d :: y) :
    ∃ t ∈ locate offset (pieces cs), ∃ front u v back, x = front ++ u ∧ y = v ++ back ∧ t.text = u ++ d :: v ∧
      t.start = offset + size front ∧ lexemeLength? (t.text ++ back) = some (t.kind, t.text.length) := by
  fun_induction pieces cs generalizing offset x with
  | case1 => exact absurd hcs (by simp)
  | case2 c cs hgap ih =>
    cases x with
    | nil =>
      obtain ⟨rfl, -⟩ := List.cons.inj hcs
      rw [lexemeLength?_eq_none_iff, hd] at hgap
      cases hgap
    | cons b x =>
      obtain ⟨rfl, htail⟩ := List.cons.inj hcs
      obtain ⟨t, ht, front, u, v, back, hx, hy, htext, hstart, hscan⟩ := ih (offset + c.utf8Size) htail
      refine ⟨t, ht, c :: front, u, v, back, by rw [hx]; rfl, hy, htext, ?_, hscan⟩
      rw [hstart, size_cons, Nat.add_assoc]
  | case3 c cs kind n hlength ih =>
    have hbounds := lexemeLength?_bounds hlength
    have hjoin : c :: cs.take (n - 1) ++ cs.drop (n - 1) = c :: cs := by
      rw [List.cons_append, List.take_append_drop]
    have hcount : (c :: cs.take (n - 1)).length = n := by
      rw [List.length_cons, List.length_take]
      omega
    have hcut : c :: cs.take (n - 1) ++ cs.drop (n - 1) = x ++ d :: y := hjoin.trans hcs
    rcases List.append_eq_append_iff.1 hcut with ⟨u, hx, hrest⟩ | ⟨u, htext, hrest⟩
    · -- the character stands behind the first lexeme
      obtain ⟨t, ht, front, u', v, back, hu, hy, htext, hstart, hscan⟩ :=
        ih (offset + size (c :: cs.take (n - 1))) hrest
      refine ⟨t, List.mem_cons_of_mem _ ht, c :: cs.take (n - 1) ++ front, u', v, back, ?_, hy, htext, ?_, hscan⟩
      · rw [hx, hu, List.append_assoc]
      · rw [hstart, size_append, Nat.add_assoc]
    · cases u with
      | nil =>
        rw [List.append_nil] at htext
        rw [List.nil_append] at hrest
        obtain ⟨t, ht, front, u', v, back, hu, hy, htext', hstart, hscan⟩ :=
          ih (offset + size (c :: cs.take (n - 1))) (x := []) hrest.symm
        obtain ⟨rfl, rfl⟩ := List.append_eq_nil_iff.1 hu.symm
        refine ⟨t, List.mem_cons_of_mem _ ht, x, [], v, back, (List.append_nil x).symm, hy, htext', ?_, hscan⟩
        rw [hstart, htext, size_nil, Nat.add_zero]
      | cons e u =>
        obtain ⟨rfl, hy⟩ := List.cons.inj hrest
        refine ⟨⟨offset, kind, c :: cs.take (n - 1)⟩, List.mem_cons_self, [], x, u, cs.drop (n - 1), rfl, hy, htext,
          rfl, ?_⟩
        change lexemeLength? (c :: cs.take (n - 1) ++ cs.drop (n - 1)) = some (kind, (c :: cs.take (n - 1)).length)
        rw [hjoin, hcount, hlength]

/-- Two tokens that share a byte are one. -/
theorem eq_of_overlap (hs : s ∈ tokenize cs) (ht : t ∈ tokenize cs) (hst : s.start < t.stop) (hts : t.start < s.stop) :
    s = t := by
  have hpairwise := List.pairwise_iff_getElem.1 (pairwise_locate 0 (pieces cs))
  obtain ⟨i, hi, rfl⟩ := List.mem_iff_getElem.1 hs
  obtain ⟨j, hj, rfl⟩ := List.mem_iff_getElem.1 ht
  rcases Nat.lt_trichotomy i j with hij | rfl | hji
  · exact absurd hts (Nat.not_lt.2 (hpairwise i j hi hj hij))
  · rfl
  · exact absurd hst (Nat.not_lt.2 (hpairwise j i hj hi hji))

/-- A token ends before another one begins if it begins before. -/
theorem stop_le_start (hs : s ∈ tokenize cs) (ht : t ∈ tokenize cs) (h : s.start < t.start) : s.stop ≤ t.start := by
  refine Nat.le_of_not_lt fun hlt => ?_
  rw [eq_of_overlap hs ht (Nat.lt_trans h (start_lt_stop ht)) hlt] at h
  exact absurd h (Nat.lt_irrefl _)

/-! ## What stands behind a lexeme -/

/-- A quoted string ends at its quote or with its line. -/
theorem quotedLength_terminates (quote : Char) (cs : List Char) : EndsLine (cs.drop (quotedLength quote cs)) ∨
    ∃ body, cs.take (quotedLength quote cs) = body ++ [quote] ∧ IsQuotedBody quote body := by
  fun_induction quotedLength quote cs with
  | case1 => exact .inl endsLine_nil
  | case2 => exact .inl endsLine_nil
  | case3 c cs ih =>
    rw [Nat.add_comm 2, List.drop_succ_cons, List.drop_succ_cons, List.take_succ_cons, List.take_succ_cons]
    refine ih.imp_right ?_
    rintro ⟨body, htake, hbody⟩
    exact ⟨'\\' :: c :: body, by rw [htake]; rfl, .escape c hbody⟩
  | case4 => exact .inl (endsLine_lineFeed _)
  | case5 => exact .inr ⟨[], rfl, .nil⟩
  | case6 c cs hlast hpair hline hquote ih =>
    have hbackslash : c ≠ '\\' := by
      rintro rfl
      cases cs with
      | nil => exact hlast rfl rfl
      | cons d cs => exact hpair d cs rfl rfl
    rw [Nat.add_comm 1, List.drop_succ_cons, List.take_succ_cons]
    refine ih.imp_right ?_
    rintro ⟨body, htake, hbody⟩
    exact ⟨c :: body, by rw [htake]; rfl, .plain hquote hbackslash hline hbody⟩

/-- A line comment ends with its line. -/
theorem endsLine_lineLength (cs : List Char) : EndsLine (cs.drop (lineLength cs)) := by
  have hrest : cs.drop (lineLength cs) = cs.dropWhile (· != '\n') := by
    unfold lineLength
    nth_rewrite 2 [← List.takeWhile_append_dropWhile (p := (· != '\n')) (l := cs)]
    rw [List.drop_left]
  rw [hrest]
  have hhead := List.head?_dropWhile_not (· != '\n') cs
  cases hcs : cs.dropWhile (· != '\n') with
  | nil => exact endsLine_nil
  | cons d rest =>
    rw [hcs] at hhead
    have hd : d = '\n' := by simpa using hhead
    exact hd ▸ endsLine_lineFeed rest

/-- A long bracket ends at its closer or with the text. -/
theorem longLength_terminates (h : bracketLevel? cs = some level) :
    cs.drop (level + 2 + longLength level (cs.drop (level + 2))) = [] ∨
      IsLong level (cs.take (level + 2 + longLength level (cs.drop (level + 2)))) := by
  obtain ⟨body, rfl⟩ := opener_of_bracketLevel? h
  rw [drop_opener, take_opener_append]
  rcases take_longLength level body with hfirst | ⟨htake, -⟩
  · exact .inr ⟨_, rfl, hfirst⟩
  · have hlength := congrArg List.length htake
    rw [List.length_take] at hlength
    refine .inl (List.drop_eq_nil_of_le ?_)
    rw [List.length_append, length_opener]
    omega

/-- A string or comment that is not terminated goes on to the end of its line. -/
theorem take_terminated_or_endsLine (h : lexemeLength? (c :: cs) = some (kind, n))
    (hkind : kind = .string ∨ kind = .comment) : Terminated kind ((c :: cs).take n) ∨ EndsLine ((c :: cs).drop n) := by
  rcases lexemeLength?_cases h with ⟨tail, rfl, rfl, rfl, rfl⟩ | ⟨rfl, hquote, rfl⟩ | ⟨level, rfl, hlevel, rfl⟩ |
    ⟨rfl, -⟩ | ⟨rfl, -⟩ | ⟨rfl, -⟩
  · rw [commentLength, List.drop_succ_cons, List.drop_succ_cons, List.drop_zero]
    cases hlevel : bracketLevel? tail with
    | some level =>
      have hcount (k : Nat) : level + 4 + k = level + 2 + k + 2 := by omega
      dsimp only
      rw [hcount, List.drop_succ_cons, List.drop_succ_cons, List.take_succ_cons, List.take_succ_cons,
        List.drop_succ_cons, List.drop_succ_cons]
      exact (longLength_terminates hlevel).elim (fun hnil => .inr (hnil ▸ endsLine_nil))
        fun hlong => .inl (.longComment hlong)
    | none => exact .inr (endsLine_lineLength _)
  · rw [Nat.add_comm, List.take_succ_cons, List.drop_succ_cons]
    refine (quotedLength_terminates c cs).symm.imp_left ?_
    rintro ⟨body, htake, hbody⟩
    rw [htake]
    exact .quoted hquote hbody
  · have hend := longLength_terminates hlevel
    rw [show level + 2 = level + 1 + 1 from rfl, List.drop_succ_cons] at hend
    exact hend.elim (fun hnil => .inr (hnil ▸ endsLine_nil)) fun hlong => .inl (.longString hlong)
  · exact absurd hkind (by decide)
  · exact absurd hkind (by unfold wordKind; split <;> decide)
  · exact absurd hkind (by decide)

theorem terminated_or_endsLine (h : lexemeLength? (text ++ back) = some (kind, text.length))
    (hkind : kind = .string ∨ kind = .comment) : Terminated kind text ∨ EndsLine back := by
  obtain ⟨c, tail, hcons⟩ : ∃ c tail, text ++ back = c :: tail := by
    refine List.exists_cons_of_ne_nil fun hnil => ?_
    rw [hnil] at h
    cases h
  rw [hcons] at h
  have hend := take_terminated_or_endsLine h hkind
  rwa [← hcons, List.take_left, List.drop_left] at hend

/-- A string or comment that is not terminated is misjudged for the bracket at its end. -/
theorem Misjudged.getLast? (h : Misjudged kind cs) (hopen : ¬ Terminated kind cs) : cs.getLast? = some ']' := by
  cases h with
  | quoted isQuote escaped _ => exact absurd (.quoted isQuote escaped) hopen
  | longString _ bracket => exact bracket
  | longComment _ bracket =>
    rw [List.getLast?_cons, List.getLast?_cons, bracket]
    rfl

theorem Terminated.getLast? (h : Terminated kind cs) : ∃ e, cs.getLast? = some e ∧ isNameChar e = false := by
  cases h with
  | quoted isQuote _ =>
    refine ⟨_, by rw [← List.cons_append, List.getLast?_concat], ?_⟩
    rcases isQuote with rfl | rfl <;> rfl
  | longString long => exact ⟨']', long.getLast?, rfl⟩
  | longComment long =>
    refine ⟨']', ?_, rfl⟩
    rw [List.getLast?_cons, List.getLast?_cons, long.getLast?]
    rfl

/-- A string or comment that does not end with its line ends in a quote or bracket. -/
theorem stringOrComment_end (h : lexemeLength? (text ++ back) = some (kind, text.length))
    (hkind : kind = .string ∨ kind = .comment) : EndsLine back ∨ ∀ e ∈ text.getLast?, isNameChar e = false := by
  refine (terminated_or_endsLine h hkind).symm.imp_right fun hterminated => ?_
  obtain ⟨e, hlast, he⟩ := hterminated.getLast?
  rw [hlast]
  simpa using he

/-- A numeral takes every digit that stands behind it. -/
theorem numeralLength_end (hex : Bool) (cs : List Char) :
    ∀ d ∈ (cs.drop (numeralLength hex cs)).head?, d.isDigit = false := by
  fun_induction numeralLength hex cs with
  | case1 => simp
  | case2 => simp
  | case3 c hother => simp_all
  | case4 c d cs _ _ ih =>
    rw [Nat.add_comm 2, List.drop_succ_cons, List.drop_succ_cons]
    exact ih
  | case5 c d cs _ _ ih =>
    rw [Nat.add_comm 1, List.drop_succ_cons]
    exact ih
  | case6 c d cs _ _ ih =>
    rw [Nat.add_comm 1, List.drop_succ_cons]
    exact ih
  | case7 c d cs _ hother => simp_all

theorem numberLength_end (cs : List Char) : ∀ d ∈ (cs.drop (numberLength cs)).head?, d.isDigit = false := by
  unfold numberLength
  split
  · next x tail =>
    split
    · rw [Nat.add_comm 2, List.drop_succ_cons, List.drop_succ_cons]
      exact numeralLength_end true tail
    · exact numeralLength_end false _
  · exact numeralLength_end false cs

theorem not_isNameChar_of_mem_longSymbols {op : List Char} (hop : op ∈ longSymbols) :
    ∀ e ∈ op, isNameChar e = false := by
  have hall : longSymbols.all (·.all (!isNameChar ·)) := by decide
  simp only [List.all_eq_true, Bool.not_eq_true'] at hall
  exact hall op hop

theorem take_symbolLength (h : 1 < symbolLength cs) : cs.take (symbolLength cs) ∈ longSymbols := by
  unfold symbolLength at h ⊢
  split at h
  · next op hop =>
    have hprefix : op <+: cs := List.isPrefixOf_iff_prefix.1 (by simpa using List.find?_some hop)
    rw [← List.prefix_iff_eq_take.1 hprefix]
    exact List.mem_of_find?_eq_some hop
  · omega

/-- What a symbol of more than one character takes is no name character. -/
theorem symbolLength_take (h : 1 < symbolLength cs) : ∀ e ∈ cs.take (symbolLength cs), isNameChar e = false :=
  not_isNameChar_of_mem_longSymbols (take_symbolLength h)

theorem isNameChar_of_isDigit (h : d.isDigit = true) : isNameChar d = true := by
  simp [isNameChar, Char.isAlphanum, h]

/-- The lexeme of a symbol begins with no name character. -/
theorem not_isNameChar_of_symbol (h : lexemeLength? (c :: cs) = some (.symbol, n)) : isNameChar c = false := by
  rw [← Bool.not_eq_true]
  intro hc
  rw [(beginsBare_of_isNameChar hc cs).lexemeLength?] at h
  split at h
  · cases h
  split at h
  · have hkind : wordKind ((c :: cs).takeWhile isNameChar) = .symbol := (Prod.mk.inj (Option.some.inj h)).1
    unfold wordKind at hkind
    split at hkind <;> cases hkind
  · next hnumber hname =>
    -- a name character is a digit or can begin a name
    simp only [startsNumber, isNameStart, isNameChar, Char.isAlphanum, Bool.or_eq_true, not_or] at hc hnumber hname
    rcases hc with (halpha | hdigit) | hunderscore
    · exact hname.1 halpha
    · exact hnumber.1 hdigit
    · exact hname.2 hunderscore

/-- No name character follows a string or comment that ends in one. -/
theorem not_isNameChar_of_name_follows (h : lexemeLength? (text ++ d :: back) = some (kind, text.length))
    (hkind : kind = .string ∨ kind = .comment) (hd : isNameChar d = true) :
    ∀ e ∈ text.getLast?, isNameChar e = false := by
  refine (stringOrComment_end h hkind).resolve_left fun hline => ?_
  have := hline.head (p := fun x => isNameChar x = false) rfl d rfl
  rw [hd] at this
  cases this

/-- Where a lexeme ends in a name character, no digit follows it. -/
theorem not_isNameChar_of_digit_follows (h : lexemeLength? (text ++ d :: back) = some (kind, text.length))
    (hd : d.isDigit = true) : ∀ e ∈ text.getLast?, isNameChar e = false := by
  by_cases hkind : kind = .string ∨ kind = .comment
  · exact not_isNameChar_of_name_follows h hkind (isNameChar_of_isDigit hd)
  cases text with
  | nil => simp
  | cons c text =>
    rw [List.cons_append] at h
    have hdrop : (c :: (text ++ d :: back)).drop (c :: text).length = d :: back := List.drop_left
    have htake : (c :: (text ++ d :: back)).take (c :: text).length = c :: text := List.take_left
    rcases lexemeLength?_cases h with ⟨tail, -, -, rfl, -⟩ | ⟨rfl, -⟩ | ⟨level, rfl, -⟩ | ⟨-, -, hn⟩ | ⟨-, -, hn⟩ |
      ⟨rfl, hn⟩
    · exact absurd (.inr rfl) hkind
    · exact absurd (.inl rfl) hkind
    · exact absurd (.inl rfl) hkind
    · -- the numeral would take the digit
      have hend := numberLength_end (c :: (text ++ d :: back))
      rw [← hn, hdrop] at hend
      have := hend d rfl
      rw [hd] at this
      cases this
    · -- and so would the word
      have hword : (c :: (text ++ d :: back)).takeWhile isNameChar = c :: text := by
        rw [← htake, hn]
        exact (List.prefix_iff_eq_take.1 (List.takeWhile_prefix _))
      have hall : ∀ x ∈ c :: text, isNameChar x = true := by
        rw [← hword]
        exact fun x hx => List.mem_takeWhile_imp hx
      have hlong : (c :: text ++ d :: back).takeWhile isNameChar = c :: text ++ (d :: back).takeWhile isNameChar :=
        List.takeWhile_append_of_pos hall
      rw [List.cons_append, hword, List.takeWhile_cons_of_pos (isNameChar_of_isDigit hd)] at hlong
      exact absurd hlong (by simp)
    · by_cases hlong : 1 < symbolLength (c :: (text ++ d :: back))
      · have hall := symbolLength_take hlong
        rw [← hn, htake] at hall
        exact fun e he => hall e (List.mem_of_getLast? he)
      · have hnil : text = [] := List.eq_nil_of_length_eq_zero (by rw [List.length_cons] at hn; omega)
        subst hnil
        simpa using not_isNameChar_of_symbol h

/-- A digit that begins a run of name characters belongs to a numeral, unless it is in a string or comment. -/
theorem kind_of_digit (h : lexemeLength? (x ++ d :: y) = some (kind, n)) (hn : x.length < n) (hd : d.isDigit = true)
    (hx : ∀ e ∈ x.getLast?, isNameChar e = false) :
    kind = .number ∨ (x ≠ [] ∧ (kind = .string ∨ kind = .comment)) := by
  cases x with
  | nil =>
    have hstart : startsNumber (d :: y) = true := by simp [startsNumber, hd]
    rw [List.nil_append, lexemeLength?_number hstart] at h
    exact .inl (Prod.mk.inj (Option.some.inj h)).1.symm
  | cons c x =>
    obtain ⟨e, he⟩ : ∃ e, (c :: x).getLast? = some e := ⟨_, List.getLast?_eq_some_getLast (List.cons_ne_nil c x)⟩
    have hlast := hx e he
    rcases lexemeLength?_cases h with ⟨tail, -, -, rfl, -⟩ | ⟨rfl, -⟩ | ⟨level, rfl, -⟩ | ⟨rfl, -⟩ | ⟨-, -, rfl⟩ |
      ⟨-, rfl⟩
    · exact .inr ⟨List.cons_ne_nil c x, .inr rfl⟩
    · exact .inr ⟨List.cons_ne_nil c x, .inl rfl⟩
    · exact .inr ⟨List.cons_ne_nil c x, .inl rfl⟩
    · exact .inl rfl
    · -- the word takes all before the digit
      have hword : c :: x <+: (c :: x ++ d :: y).takeWhile isNameChar :=
        List.prefix_of_prefix_length_le (List.prefix_append _ _) (List.takeWhile_prefix _) (Nat.le_of_lt hn)
      have := List.mem_takeWhile_imp (hword.subset (List.mem_of_getLast? he))
      rw [hlast] at this
      cases this
    · change (c :: x).length < symbolLength (c :: x ++ d :: y) at hn
      have hlong : 1 < symbolLength (c :: x ++ d :: y) := by
        rw [List.length_cons] at hn
        omega
      have hmem : d ∈ (c :: x ++ d :: y).take (symbolLength (c :: x ++ d :: y)) := by
        obtain ⟨k, hk⟩ : ∃ k, symbolLength (c :: x ++ d :: y) = (c :: x).length + (k + 1) :=
          ⟨symbolLength (c :: x ++ d :: y) - (c :: x).length - 1, by omega⟩
        rw [hk, List.take_length_add_append, List.take_succ_cons]
        simp
      have := symbolLength_take hlong d hmem
      rw [isNameChar_of_isDigit hd] at this
      cases this

/-! ## Words before numerals -/

/-- No name character stands right before a numeral that begins with a digit. -/
theorem not_isNameChar_before (ht : t ∈ tokenize cs) (hcs : cs = x ++ d :: y) (hstart : t.start = size x)
    (hd : d.isDigit = true) : ∀ e ∈ x.getLast?, isNameChar e = false := by
  intro e he
  obtain ⟨x, rfl⟩ := List.getLast?_eq_some_iff.1 he
  rw [← Bool.not_eq_true]
  intro hname
  have hcode : (isAsciiBlank e || !isAscii e) = false := by
    have hbare := beginsBare_of_isNameChar hname []
    rw [hbare.not_blank, hbare.ascii]
    rfl
  rw [List.append_assoc] at hcs
  obtain ⟨s, hs, front, u, v, back, hx, hy, htext, hplace, hscan⟩ := exists_locate_of_append 0 hcode hcs
  rw [Nat.zero_add] at hplace
  have hpos := e.utf8Size_pos
  -- the token of that character ends where the numeral begins
  have hstop := stop_le_start hs ht (by rw [hplace, hstart, hx]; simp; omega)
  have hv : v = [] := by
    rw [Token.stop, hplace, hstart, htext, hx] at hstop
    simp only [size_append, size_cons, size_nil] at hstop
    exact size_eq_zero_iff.1 (by omega)
  subst hv
  rw [List.nil_append] at hy
  subst hy
  have := not_isNameChar_of_digit_follows hscan hd e (by rw [htext]; simp)
  rw [hname] at this
  cases this

end Scriptorium.Editor
