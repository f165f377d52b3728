import Scriptorium.Assist.Engine
import Scriptorium.Assist.Template
import Scriptorium.Proofs.Editor.BufferInvariant
import Scriptorium.Proofs.Editor.TextWindow

/-!
# Offline completion

The offline backend completes the name at the end of the context. It sees the last `contextLimit` bytes before the
cursor and nothing behind it. Where it reads them in step with the whole text it finds the name that the
editor's own completion finds at the cursor, and answers what belongs to that name: `typedAt?_context`. Where a long
comment begins before the context it takes the comment for code: `context_cut_in_comment`.
-/

namespace Scriptorium.Assist

open Editor Text

variable {b : Buffer} {x y : List Char}

/-- What the offline backend answers to a typed name. -/
def completing (r : Registry) : Option (List Char) → List Char
  | none | some [] => starterSnippet
  | some typed =>
    match Completion.items r typed with
    | [] => starterSnippet
    | c :: _ => if (remainder c typed).isEmpty then starterSnippet else remainder c typed

theorem continuation_eq (r : Registry) (context : List Char) :
    continuation r context = completing r (typedAt? context (size context)) := rfl

/-- The part of the text before the cursor that a request shows. -/
def window (b : Buffer) : List Char := lastBytes contextLimit (take b.cursor b.text)

/-- Reading the context alone comes in step with reading the whole text. -/
def ReadsInStep (b : Buffer) : Prop :=
  ∃ before, take b.cursor b.text = before ++ window b ∧ InStep before (window b) (drop b.cursor b.text)

/-- The cursor is in a string or comment, behind a part of its opening. -/
def AtOpening (b : Buffer) : Prop :=
  ∃ t ∈ tokenize b.text, (t.kind = .string ∨ t.kind = .comment) ∧ ∃ front, t.CutBehind b.cursor front ∧ IsOpening front

/-- The cursor is in a string or comment of which the part before the cursor is misjudged. -/
def AtMisjudged (b : Buffer) : Prop :=
  ∃ t ∈ tokenize b.text, ∃ front, t.CutBehind b.cursor front ∧ Misjudged t.kind front

/-- The cursor is in code, a digit stands right behind it, and no name before it. -/
def BeforeDigit (b : Buffer) : Prop :=
  isCodePosition b.text b.cursor = true ∧ lastWord (take b.cursor b.text) = [] ∧
    BeginsWithDigit (drop b.cursor b.text)

/-! ## Contexts -/

theorem lastBytes_append_of_size {limit : Nat} (h : size y = limit) (x : List Char) : lastBytes limit (x ++ y) = y := by
  rw [lastBytes, List.reverse_append, ← h, ← size_reverse y, take_size_append, List.reverse_reverse]

/-- All that stands before the cursor is in the context when it is no more than the limit. -/
theorem readsInStep_of_le (h : b.cursor ≤ contextLimit) : ReadsInStep b := by
  have hwindow : window b = take b.cursor b.text := by
    have hsize : size (take b.cursor b.text).reverse ≤ contextLimit := by
      rw [size_reverse]
      exact Nat.le_trans (snap_le b.cursor b.text) h
    rw [window, lastBytes, take_of_size_le hsize, List.reverse_reverse]
  exact ⟨[], by rw [hwindow, List.nil_append], .whole rfl⟩

theorem context_trigger (b : Buffer) (e : Engine) (now : Nat) : (e.trigger b .suggest now).1.context = window b := rfl

/-! ## What is typed at the end of the context -/

theorem kind_of_holds {t : Token} {place : Nat} (h : t.holds place = true) : t.kind = .string ∨ t.kind = .comment := by
  unfold Token.holds at h
  cases hkind : t.kind <;> simp_all

theorem isCodePosition_eq_false_iff (x y : List Char) :
    isCodePosition (x ++ y) (size x) = false ↔ ∃ t ∈ tokenize (x ++ y), t.holds (size x) = true := by
  rw [isCodePosition, Nat.min_eq_left (by simp), Bool.not_eq_false', List.any_eq_true]

/-- The window as the end of the text before the cursor: the same word and name stand there, and the window ends in a
string or comment where the text before the cursor does, unless a token looks over. -/
theorem ReadsInStep.exists_cut (hb : b.WellFormed) (h : ReadsInStep b) :
    ∃ x y, b.text = x ++ y ∧ b.cursor = size x ∧ take b.cursor b.text = x ∧ drop b.cursor b.text = y ∧
      lastWord (window b) = lastWord x ∧ typedName (window b) = typedName x ∧
      (isCodePosition (window b) (size (window b)) = false ↔
        ∃ t ∈ tokenize (x ++ y), t.holds (size x) = true ∧ ¬ t.LooksOver (size x)) := by
  obtain ⟨before, hbefore, hstep⟩ := h
  obtain ⟨x, y, htext, hcursor⟩ := hb.cursor
  have htake : take b.cursor b.text = x := by rw [htext, ← hcursor, take_size_append]
  have hdrop : drop b.cursor b.text = y := by rw [htext, ← hcursor, drop_size_append]
  obtain ⟨hword, hname⟩ := hstep.names
  have hcode := hstep.code_iff
  rw [← hbefore, htake, hdrop] at hcode
  rw [← hbefore, htake] at hword hname
  exact ⟨x, y, htext, hcursor.symm, htake, hdrop, hword, hname, hcode⟩

theorem typedAt?_end (x : List Char) :
    typedAt? x (size x) =
      if isCodePosition x (size x) = false ∨ BeginsWithDigit (lastWord x) then none else some (typedName x) := by
  have h := typedAt?_append x []
  rwa [List.append_nil, List.append_nil] at h

theorem getLast?_of_isOpening (h : IsOpening x) :
    ∃ m, x.getLast? = some m ∧ isNameChar m = false ∧ Registry.isSeparator m = false := by
  rcases h with rfl | ⟨level, rfl⟩
  · exact ⟨'-', rfl, rfl, rfl⟩
  · cases level with
    | zero => exact ⟨'[', rfl, rfl, rfl⟩
    | succ level => exact ⟨'=', by simp [List.getLast?_cons, List.getLast?_replicate], rfl, rfl⟩

/-- Behind a part of an opening nothing has been typed. -/
theorem typedAt?_window_opening (hb : b.WellFormed) (hstep : ReadsInStep b) (h : AtOpening b) :
    typedAt? b.text b.cursor = none ∧ typedAt? (window b) (size (window b)) = some [] := by
  obtain ⟨x, y, htext, hcursor, -, -, hword, hname, hcode⟩ := hstep.exists_cut hb
  obtain ⟨t, ht, hkind, front, hcut, hopening⟩ := h
  obtain ⟨m, hm, hmark, hsep⟩ := getLast?_of_isOpening hopening
  rw [htext] at ht
  rw [hcursor] at hcut
  have hfront : front ≠ [] := by
    rintro rfl
    cases hm
  have hinside : t.start < size x := by
    have hpos : 0 < size front := Nat.pos_of_ne_zero (mt size_eq_zero_iff.1 hfront)
    rw [hcut.place]
    omega
  have hholds := holds_of_lt hkind hinside hcut.lt_stop
  have hlast : x.getLast? = some m := by
    obtain ⟨before, c, text, rest, hsplit, hstart, -, -⟩ := exists_split_of_mem_tokenize ht
    obtain ⟨⟨back, -, hback⟩, hplace⟩ := hcut
    have hjoin : x ++ y = (before ++ front) ++ (back ++ rest) := by
      rw [hsplit, hback]
      simp
    obtain ⟨rfl, -⟩ := append_inj_of_size hjoin (by rw [hplace, hstart, size_append])
    rw [List.getLast?_append, hm]
    rfl
  constructor
  · rw [htext, hcursor, typedAt?_append_eq_none_iff, isCodePosition_eq_false_iff]
    exact .inl ⟨t, ht, hholds⟩
  · obtain ⟨hnone, hempty⟩ := names_of_mark hlast hmark hsep
    have hfree : ¬ isCodePosition (window b) (size (window b)) = false := by
      rw [hcode]
      rintro ⟨s, hs, hheld, hover⟩
      have hle := Token.le_stop_of_holds hheld
      have hlt : s.start < size x := by
        unfold Token.holds at hheld
        exact of_decide_eq_true (Bool.and_eq_true_iff.1 hheld).1
      obtain rfl : s = t := eq_of_overlap hs ht (Nat.lt_trans hlt hcut.lt_stop) (Nat.lt_of_lt_of_le hinside hle)
      exact hover ⟨front, hcut, .inl hopening⟩
    rw [typedAt?_end, hword, hname, hnone, hempty, if_neg]
    rintro (hcode | hdigit)
    · exact hfree hcode
    · cases hdigit

/-- Elsewhere the context tells what the whole text tells. -/
theorem typedAt?_window (hb : b.WellFormed) (hstep : ReadsInStep b) (hopening : ¬ AtOpening b)
    (hjudged : ¬ AtMisjudged b) (hdigit : ¬ BeforeDigit b) :
    typedAt? (window b) (size (window b)) = typedAt? b.text b.cursor := by
  obtain ⟨x, y, htext, hcursor, htake, hdrop, hword, hname, hcode⟩ := hstep.exists_cut hb
  have hsame : isCodePosition (window b) (size (window b)) = false ↔ isCodePosition (x ++ y) (size x) = false := by
    rw [hcode, isCodePosition_eq_false_iff]
    refine exists_congr fun t => and_congr_right fun ht => and_iff_left_of_imp fun hholds => ?_
    rintro ⟨front, hcut, hlooks⟩
    rw [← hcursor] at hcut
    rw [← htext] at ht
    rcases hlooks with hlooks | hlooks
    · exact hopening ⟨t, ht, kind_of_holds hholds, front, hcut, hlooks⟩
    · exact hjudged ⟨t, ht, front, hcut, hlooks⟩
  rw [typedAt?_end, hname, hword, htext, hcursor, typedAt?_append]
  cases hplace : isCodePosition (x ++ y) (size x) with
  | false => simp only [hsame, hplace, true_or, if_true]
  | true =>
    have hbegins : BeginsWithDigit (lastWord x) ↔ BeginsWithDigit (lastWord x ++ y) := by
      cases hx : lastWord x with
      | nil =>
        refine iff_of_false (by simp [BeginsWithDigit]) fun hy => hdigit ⟨?_, ?_, ?_⟩
        · rw [htext, hcursor, hplace]
        · rw [htake, hx]
        · rw [hdrop]
          exact hy
      | cons c word => exact Iff.rfl
    simp only [hsame, hplace, hbegins]

/-- The offline backend completes the name that the editor completes at the cursor. Behind a part of an opening the
editor finds no name, and the backend an empty one, for which it has the same answer. -/
theorem typedAt?_context (hb : b.Reachable) (hstep : b.cursor ≤ contextLimit ∨ ReadsInStep b)
    (hjudged : ¬ AtMisjudged b) (hdigit : ¬ BeforeDigit b) (e : Engine) (now : Nat) (r : Registry) :
    let q := (e.trigger b .suggest now).1
    (AtOpening b → typedAt? b.text b.cursor = none ∧ typedAt? q.context (size q.context) = some []) ∧
      (¬ AtOpening b → typedAt? q.context (size q.context) = typedAt? b.text b.cursor) ∧
      templateAnswer r q = .ok (completing r (typedAt? b.text b.cursor)) := by
  have hread : ReadsInStep b := hstep.elim readsInStep_of_le id
  have hsame := typedAt?_window hb.wellFormed hread
  refine ⟨typedAt?_window_opening hb.wellFormed hread, fun hopening => hsame hopening hjudged hdigit, ?_⟩
  change Except.ok (completing r (typedAt? (window b) (size (window b)))) = _
  by_cases hopening : AtOpening b
  · obtain ⟨heditor, hbackend⟩ := typedAt?_window_opening hb.wellFormed hread hopening
    rw [heditor, hbackend]
    rfl
  · rw [hsame hopening hjudged hdigit]

/-! ## A comment that begins before the context -/

theorem size_replicate (n : Nat) (c : Char) : size (List.replicate n c) = n * c.utf8Size := by
  induction n with
  | zero => simp
  | succ n ih =>
    rw [List.replicate_succ, size_cons, ih, Nat.succ_mul]
    omega

/-- A word that leaves three bytes of the context. -/
def longWord : List Char := List.replicate 1997 'x'

theorem size_longWord : size longWord = 1997 := size_replicate 1997 'x'

theorem not_mem_longWord {c : Char} (h : c ≠ 'x') : c ∉ longWord := fun hmem => h (List.eq_of_mem_replicate hmem)

theorem spelled_longWord : Spelled .name longWord := by
  have hall : longWord.all isNameChar = true :=
    List.all_eq_true.2 fun c hc => by rw [List.eq_of_mem_replicate hc]; rfl
  refine .name (isName_of_all rfl hall) fun hreserved => ?_
  have hshort : ∀ word ∈ keywords, word.length ≤ 8 := by decide
  have hlength := hshort _ hreserved
  rw [String.length_ofList, longWord, List.length_replicate] at hlength
  omega

/-- A comment with a long word, three more characters, and the cursor behind them. -/
def commented (tail : List Char) : Buffer := .ofText 1 (['-', '-', ' '] ++ (longWord ++ tail))

theorem commented_text (tail : List Char) (h : '\r' ∉ tail) :
    (commented tail).text = ['-', '-', ' '] ++ (longWord ++ tail) ∧
      (commented tail).cursor = size (['-', '-', ' '] ++ (longWord ++ tail)) := by
  have hplain : '\r' ∉ ['-', '-', ' '] ++ (longWord ++ tail) := by
    simp [h, not_mem_longWord]
  have hnormal := normalize_of_not_mem hplain
  exact ⟨hnormal, congrArg size hnormal⟩

theorem window_commented {tail : List Char} (h : '\r' ∉ tail) (hsize : size tail = 3) :
    window (commented tail) = longWord ++ tail := by
  obtain ⟨htext, hcursor⟩ := commented_text tail h
  have htake := take_size_append (['-', '-', ' '] ++ (longWord ++ tail)) []
  rw [List.append_nil] at htake
  rw [window, htext, hcursor, htake]
  exact lastBytes_append_of_size (by rw [size_append, size_longWord, hsize]; rfl) _

/-- Behind a line comment there is no code. -/
theorem isCodePosition_commented {cs : List Char} (hline : '\n' ∉ cs) :
    isCodePosition ('-' :: '-' :: ' ' :: cs) (size ('-' :: '-' :: ' ' :: cs)) = false := by
  have hcomment : Spelled .comment ('-' :: '-' :: ' ' :: cs) :=
    .lineComment (by simpa using hline) fun level hopener => by simp [opener] at hopener
  have hpieces := pieces_lexeme hcomment endsLine_nil
  rw [List.append_nil, pieces] at hpieces
  have hopen : looksClosedComment ('-' :: '-' :: ' ' :: cs) = false := by
    rw [looksClosedComment_dashes]
    rfl
  generalize hcs : '-' :: '-' :: ' ' :: cs = text at hpieces hopen ⊢
  have hpos : 0 < size text := by
    rw [← hcs, size_cons]
    exact Nat.lt_of_lt_of_le ('-'.utf8Size_pos) (Nat.le_add_right _ _)
  rw [isCodePosition, tokenize, hpieces]
  simp [locate, Token.holds, Token.kind, Token.stop, Token.text, hopen, hpos]

theorem typedAt?_longWord {tail : List Char} (h : tail = [' ', 'h', 'o'] ∨ tail = ['\n', 'h', 'o']) :
    typedAt? (longWord ++ tail) (size (longWord ++ tail)) = some ['h', 'o'] := by
  have hplain : PlainText (longWord ++ tail) := by
    have hclear : ∀ c ∈ ['x', ' ', '\n', 'h', 'o'], c ∉ ['"', '\'', '[', '-'] := by simp
    refine (IsUnmarked.of_all fun c hc => hclear c ?_).plain
    rcases List.mem_append.1 hc with hc | hc
    · rw [List.eq_of_mem_replicate hc]
      exact List.mem_cons_self
    · rcases h with rfl | rfl
      · have hsub : [' ', 'h', 'o'] ⊆ ['x', ' ', '\n', 'h', 'o'] := by simp
        exact hsub hc
      · exact List.mem_cons_of_mem 'x' (List.mem_cons_of_mem ' ' hc)
  rcases h with rfl | rfl <;>
  · rw [typedAt?_end, lastWord_append_mark rfl, typedName_append_mark rfl rfl, hplain.is_code, if_neg (by decide)]
    rfl

/-- In a comment that begins before the context, the editor completes nothing and the offline backend what looks
like a name. -/
theorem context_cut_in_comment :
    let b := commented [' ', 'h', 'o']
    let q := ({ buffer := 1 : Engine }.trigger b .suggest 0).1
    b.Reachable ∧ typedAt? b.text b.cursor = none ∧ typedAt? q.context (size q.context) = some ['h', 'o'] := by
  obtain ⟨htext, hcursor⟩ := commented_text [' ', 'h', 'o'] (by decide)
  intro b q
  have hq : q.context = longWord ++ [' ', 'h', 'o'] :=
    (context_trigger b { buffer := 1 } 0).trans (window_commented (by decide) rfl)
  refine ⟨Buffer.reachable_ofText 1 _, ?_, by rw [hq, typedAt?_longWord (.inl rfl)]⟩
  rw [htext, hcursor, typedAt?_end, if_pos]
  exact .inl (isCodePosition_commented (by simp [not_mem_longWord]))

theorem tokenize_lines {kind : LexemeKind} {line : List Char} (h : Spelled kind line) :
    tokenize (line ++ ['\n', 'h', 'o']) = [⟨0, kind, line⟩, ⟨size line + 1, .name, ['h', 'o']⟩] := by
  have hname : Spelled .name ['h', 'o'] := .name (isName_of_all rfl rfl) (by decide)
  have hpieces := pieces_lexeme h (endsLine_lineFeed ['h', 'o'])
  have hrest := pieces_lexeme hname endsLine_nil
  rw [List.append_nil, pieces] at hrest
  rw [tokenize, hpieces, pieces_lineFeed, hrest]
  simp only [locate, Nat.zero_add]
  rfl

/-- No token goes over the end of a line that is one lexeme. -/
theorem not_over_line {kind : LexemeKind} {line : List Char} (h : Spelled kind line) :
    ∀ t ∈ tokenize (line ++ ['\n', 'h', 'o']),
      ¬ (t.start < size (line ++ ['\n']) ∧ size (line ++ ['\n']) < t.stop) := by
  have hsize : size (line ++ ['\n']) = size line + 1 := size_append line ['\n']
  rw [tokenize_lines h, hsize]
  intro t ht hover
  simp only [List.mem_cons, List.not_mem_nil, or_false] at ht
  rcases ht with rfl | rfl
  · simp only [Token.stop, Token.text] at hover
    omega
  · exact absurd hover.1 (Nat.lt_irrefl _)

/-- Below such a comment the reader of the context is in step again. -/
theorem typedAt?_context_below_comment :
    let b := commented ['\n', 'h', 'o']
    let q := ({ buffer := 1 : Engine }.trigger b .suggest 0).1
    b.Reachable ∧ ReadsInStep b ∧ ¬ AtMisjudged b ∧ ¬ BeforeDigit b ∧ ¬ AtOpening b ∧
      typedAt? q.context (size q.context) = typedAt? b.text b.cursor ∧
      typedAt? q.context (size q.context) = some ['h', 'o'] := by
  obtain ⟨htext, hcursor⟩ := commented_text ['\n', 'h', 'o'] (by decide)
  have hwindow : window (commented ['\n', 'h', 'o']) = longWord ++ ['\n', 'h', 'o'] := window_commented (by decide) rfl
  intro b q
  have hend : b.cursor = size b.text := by rw [hcursor, htext]
  have htake : take b.cursor b.text = b.text := by rw [hend, take_of_size_le (Nat.le_refl _)]
  have hdrop : drop b.cursor b.text = [] := by
    have hjoin := take_append_drop b.cursor b.text
    rw [htake] at hjoin
    exact List.append_cancel_left (hjoin.trans (List.append_nil _).symm)
  have hstep : ReadsInStep b := by
    have hcomment : Spelled .comment ('-' :: '-' :: ' ' :: longWord) :=
      .lineComment (by simp [not_mem_longWord]) fun level hopener => by simp [opener] at hopener
    refine ⟨['-', '-', ' '], by rw [htake, hwindow, htext], ?_⟩
    refine .mark longWord '\n' ['h', 'o'] hwindow (List.cons_ne_nil _ _) rfl rfl ?_ ?_
    · rw [hwindow]
      exact not_over_line spelled_longWord
    · rw [hwindow, hdrop, List.append_nil]
      exact not_over_line hcomment
  have hinside : ∀ t ∈ tokenize b.text, ∀ front, ¬ t.CutBehind b.cursor front := by
    intro t ht front hcut
    rw [hend] at hcut
    exact absurd (stop_le_size ht) (Nat.not_le.2 hcut.lt_stop)
  have hdigit : ¬ BeforeDigit b := by
    rintro ⟨-, -, hdigit⟩
    rw [hdrop] at hdigit
    cases hdigit
  have hjudged : ¬ AtMisjudged b := by
    rintro ⟨t, ht, front, hcut, -⟩
    exact hinside t ht front hcut
  have hopening : ¬ AtOpening b := by
    rintro ⟨t, ht, -, front, hcut, -⟩
    exact hinside t ht front hcut
  have hreachable : b.Reachable := Buffer.reachable_ofText 1 _
  have hq : q.context = longWord ++ ['\n', 'h', 'o'] := (context_trigger b { buffer := 1 } 0).trans hwindow
  exact ⟨hreachable, hstep, hjudged, hdigit, hopening,
    (typedAt?_context hreachable (.inr hstep) hjudged hdigit { buffer := 1 } 0 default).2.1 hopening,
    by rw [hq, typedAt?_longWord (.inr rfl)]⟩

end Scriptorium.Assist
