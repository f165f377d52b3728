import Scriptorium.Assist.Template
import Scriptorium.Proofs.Editor.Layout
import Scriptorium.Proofs.Text.LineCuts
import Scriptorium.Proofs.Text.Trim

/-!
# Offline replacements

Tidied code is the selection with other blanks around its line ends (`laysOut_tidyBehind`), and so is guarded code
between its header and footer (`laysOut_guardBehind`). The code of the selection stays but for its strings, whose line
ends change too: `replacements_keep_iff`.
-/

namespace Scriptorium.Assist

open Editor Text

variable {cs line x y : List Char} {c e : Char} {b : Bool}

/-! ## Tidying -/

/-- The lines of a text when they are tidied, each behind a line end. -/
def tidyRows (afterEmpty : Bool) (cs : List Char) : List Char :=
  (tidyLines afterEmpty (lines cs)).flatMap ('\n' :: ·)

/-- What tidying makes of the text behind a character. -/
def tidyBehind (cs : List Char) : List Char := trimEnd (firstLine cs) ++ tidyRows false (below cs)

theorem isEmpty_trimEnd (line : List Char) : (trimEnd line).isEmpty = isBlankText line := by
  rw [Bool.eq_iff_iff, List.isEmpty_iff, trimEnd_eq_nil_iff]

theorem tidyLines_blank (h : isBlankText line = true) (b : Bool) (rest : List (List Char)) :
    tidyLines b (line :: rest) = (if b then [] else [[]]) ++ tidyLines true rest := by
  rw [tidyLines, isEmpty_trimEnd, h, trimEnd_eq_nil_iff.2 h]
  cases b <;> rfl

theorem tidyLines_text (h : isBlankText line = false) (b : Bool) (rest : List (List Char)) :
    tidyLines b (line :: rest) = trimEnd line :: tidyLines false rest := by
  rw [tidyLines, isEmpty_trimEnd, h, Bool.false_and, if_neg Bool.false_ne_true]

@[simp] theorem tidyRows_nil (b : Bool) : tidyRows b [] = [] := rfl

/-- An empty line is kept, unless an empty line comes before it. -/
theorem tidyRows_blank (hne : cs ≠ []) (h : isBlankText (firstLine cs) = true) (b : Bool) :
    tidyRows b cs = (if b then [] else ['\n']) ++ tidyRows true (below cs) := by
  obtain ⟨line, hlines, htrim⟩ := lines_eq_cons hne
  have hline : isBlankText line = true := by rwa [← isEmpty_trimEnd, htrim, isEmpty_trimEnd]
  rw [tidyRows, hlines, tidyLines_blank hline, List.flatMap_append]
  cases b <;> rfl

theorem tidyRows_text (h : isBlankText (firstLine cs) = false) (b : Bool) :
    tidyRows b cs = '\n' :: tidyBehind cs := by
  have hne : cs ≠ [] := by
    rintro rfl
    cases h
  obtain ⟨line, hlines, htrim⟩ := lines_eq_cons hne
  have hline : isBlankText line = false := by rwa [← isEmpty_trimEnd, htrim, isEmpty_trimEnd]
  rw [tidyRows, hlines, tidyLines_text hline, List.flatMap_cons, htrim]
  rfl

theorem tidyBehind_lineFeed (cs : List Char) : tidyBehind ('\n' :: cs) = tidyRows false cs := rfl

theorem tidyBehind_of_not_mem (h : '\n' ∉ line) : tidyBehind line = trimEnd line := by
  rw [tidyBehind, firstLine_of_not_mem h, below_of_not_mem h, tidyRows_nil, List.append_nil]

theorem tidyBehind_append_lineFeed (h : '\n' ∉ line) (cs : List Char) :
    tidyBehind (line ++ '\n' :: cs) = trimEnd line ++ tidyRows false cs := by
  rw [tidyBehind, firstLine_append_lineFeed h, below_append_lineFeed h]

/-- Text in front of text of its line is kept. -/
theorem tidyBehind_append (h : '\n' ∉ x) (htext : isBlankText (firstLine y) = false) :
    tidyBehind (x ++ y) = x ++ tidyBehind y := by
  rw [tidyBehind, firstLine_append h, below_append h, trimEnd_append htext, List.append_assoc]
  rfl

theorem tidyBehind_cons (h : isBlankText (firstLine (c :: cs)) = false) :
    tidyBehind (c :: cs) = c :: tidyBehind cs := by
  have hline : '\n' ∉ [c] := by
    rw [List.mem_singleton]
    rintro rfl
    cases h
  rw [← List.singleton_append, firstLine_append hline, List.singleton_append] at h
  rw [tidyBehind, ← List.singleton_append, firstLine_append hline, below_append hline, List.singleton_append,
    trimEnd_cons h]
  rfl

theorem join_lineFeed {ls : List (List Char)} (h : ls ≠ []) : '\n' :: join ['\n'] ls = ls.flatMap ('\n' :: ·) := by
  induction ls with
  | nil => exact absurd rfl h
  | cons line ls ih =>
    cases ls with
    | nil => rw [join, List.flatMap_singleton]
    | cons next ls =>
      rw [join, List.flatMap_cons, ← ih (List.cons_ne_nil _ _)]
      · simp
      · exact List.cons_ne_nil _ _

/-- Tidied code is what is made of it behind a line end. -/
theorem lineFeed_tidy (hne : cs ≠ []) : '\n' :: tidy cs = tidyBehind ('\n' :: cs) := by
  rw [tidyBehind_lineFeed, tidy, tidyRows, join_lineFeed]
  obtain ⟨line, hlines, -⟩ := lines_eq_cons hne
  rw [hlines]
  cases hline : isBlankText line with
  | true => simp [tidyLines_blank hline]
  | false => simp [tidyLines_text hline]

theorem tidy_eq (hc : isBlank c = false) (cs : List Char) : tidy (c :: cs) = tidyBehind (c :: cs) := by
  have hlaid := lineFeed_tidy (List.cons_ne_nil c cs)
  rw [tidyBehind_lineFeed, tidyRows_text (isBlankText_firstLine hc cs)] at hlaid
  exact (List.cons.inj hlaid).2

/-- Blank lines give way to one empty line, or to none behind an empty line and at the end. -/
theorem tidyRows_cases (b : Bool) (cs : List Char) :
    ∃ blanks rest, cs = blanks ++ rest ∧ (∀ c ∈ blanks, isBlank c = true) ∧
      (('\n' :: blanks).getLast? = some '\n' ∨ rest = []) ∧
      (tidyRows b cs = [] ∧ rest = [] ∨
        ∃ indent, tidyRows b cs = '\n' :: (indent ++ tidyBehind rest) ∧
          (indent = [] ∨ indent = ['\n'] ∧ '\n' ∈ blanks ∧ b = false)) := by
  induction cs using line_induction generalizing b with
  | hlast line h =>
    by_cases hne : line = []
    · subst hne
      exact ⟨[], [], rfl, by simp, .inl rfl, .inl ⟨rfl, rfl⟩⟩
    cases hblank : isBlankText (firstLine line) with
    | false => exact ⟨[], line, rfl, by simp, .inl rfl, .inr ⟨[], tidyRows_text hblank b, .inl rfl⟩⟩
    | true =>
      have hrows := tidyRows_blank hne hblank b
      rw [below_of_not_mem h, tidyRows_nil, List.append_nil] at hrows
      rw [firstLine_of_not_mem h] at hblank
      refine ⟨line, [], (List.append_nil line).symm, List.all_eq_true.1 hblank, .inr rfl, ?_⟩
      rw [hrows]
      cases b with
      | true => exact .inl ⟨rfl, rfl⟩
      | false => exact .inr ⟨[], rfl, .inl rfl⟩
  | hline line cs h ih =>
    cases hblank : isBlankText (firstLine (line ++ '\n' :: cs)) with
    | false => exact ⟨[], _, rfl, by simp, .inl rfl, .inr ⟨[], tidyRows_text hblank b, .inl rfl⟩⟩
    | true =>
      have hrows := tidyRows_blank (by simp) hblank b
      rw [below_append_lineFeed h] at hrows
      rw [firstLine_append_lineFeed h] at hblank
      obtain ⟨blanks, rest, rfl, hblanks, hends, hcases⟩ := ih true
      refine ⟨line ++ '\n' :: blanks, rest, by simp, ?_, ?_, ?_⟩
      · exact List.forall_mem_append.2 ⟨List.all_eq_true.1 hblank, List.forall_mem_cons.2 ⟨rfl, hblanks⟩⟩
      · refine hends.imp_left fun hlast => ?_
        rwa [← List.cons_append, List.getLast?_append_of_ne_nil _ (List.cons_ne_nil _ _)]
      · rw [hrows]
        rcases hcases with ⟨hnone, rfl⟩ | ⟨indent, hlaid, rfl | ⟨-, -, hfalse⟩⟩
        · rw [hnone]
          cases b with
          | true => exact .inl ⟨rfl, rfl⟩
          | false => exact .inr ⟨[], rfl, .inl rfl⟩
        · rw [hlaid]
          cases b with
          | true => exact .inr ⟨[], rfl, .inl rfl⟩
          | false => exact .inr ⟨['\n'], rfl, .inr ⟨rfl, by simp, rfl⟩⟩
        · cases hfalse

theorem isBlankText_firstLine_append (h : '\n' ∉ x) (he : isBlank e = false) (y : List Char) :
    isBlankText (firstLine (x ++ e :: y)) = false := by
  rw [firstLine_append h, isBlankText_append, isBlankText_firstLine he, Bool.and_false]

theorem tidyBehind_line_mark (h : '\n' ∉ x) (he : isBlank e = false) (y : List Char) :
    tidyBehind (x ++ e :: y) = tidyBehind (x ++ [e]) ++ tidyBehind y := by
  have hkept (y : List Char) : tidyBehind (x ++ e :: y) = x ++ e :: tidyBehind y := by
    rw [tidyBehind_append h (isBlankText_firstLine he y), tidyBehind_cons (isBlankText_firstLine he y)]
  rw [hkept, hkept, List.append_assoc]
  rfl

/-- What stands behind a character that is no blank is tidied by itself. -/
theorem tidyRows_mark (he : isBlank e = false) (b : Bool) (x y : List Char) :
    tidyRows b (x ++ e :: y) = tidyRows b (x ++ [e]) ++ tidyBehind y := by
  induction x using line_induction generalizing b with
  | hlast line h =>
    rw [tidyRows_text (isBlankText_firstLine_append h he y), tidyRows_text (isBlankText_firstLine_append h he []),
      tidyBehind_line_mark h he, List.cons_append]
  | hline line x h ih =>
    have hfirst := firstLine_append_lineFeed h
    simp only [List.append_assoc, List.cons_append]
    cases hblank : isBlankText line with
    | true =>
      have hrows (rest : List Char) : tidyRows b (line ++ '\n' :: rest) = _ :=
        tidyRows_blank (by simp) ((hfirst rest).symm ▸ hblank) b
      rw [hrows, hrows, below_append_lineFeed h, below_append_lineFeed h, ih, List.append_assoc]
    | false =>
      have hrows (rest : List Char) : tidyRows b (line ++ '\n' :: rest) = _ :=
        tidyRows_text ((hfirst rest).symm ▸ hblank) b
      rw [hrows, hrows, tidyBehind_append_lineFeed h, tidyBehind_append_lineFeed h, ih, List.cons_append,
        List.append_assoc]

theorem laysOut_tidyBehind : LaysOut tidyBehind where
  nil := rfl
  step c cs := by
    cases hblank : isBlankText (firstLine (c :: cs)) with
    | false => exact .inl (tidyBehind_cons hblank)
    | true =>
      right
      rcases exists_line (c :: cs) with h | ⟨line, rest, h, htext⟩
      · rw [firstLine_of_not_mem h] at hblank
        exact .last (List.all_eq_true.1 hblank) (by rw [tidyBehind_of_not_mem h, trimEnd_eq_nil_iff.2 hblank])
      · rw [htext, firstLine_append_lineFeed h] at hblank
        rw [htext]
        have hlaid : tidyBehind (line ++ '\n' :: rest) = tidyRows false rest := by
          rw [tidyBehind_append_lineFeed h, trimEnd_eq_nil_iff.2 hblank, List.nil_append]
        obtain ⟨blanks, rest, rfl, hblanks, hends, hcases⟩ := tidyRows_cases false rest
        have hall : ∀ c ∈ line ++ '\n' :: blanks, isBlank c = true :=
          List.forall_mem_append.2 ⟨List.all_eq_true.1 hblank, List.forall_mem_cons.2 ⟨rfl, hblanks⟩⟩
        rcases hcases with ⟨hnone, rfl⟩ | ⟨indent, hrows, hindent⟩
        · rw [List.append_nil] at hlaid hnone ⊢
          exact .last hall (hlaid.trans hnone)
        · refine .line (line ++ '\n' :: blanks) indent rest (by simp) hall (by simp) ?_ ?_ ?_ (hlaid.trans hrows)
          · refine hends.imp_left fun hlast => ?_
            rwa [List.getLast?_append_of_ne_nil _ (List.cons_ne_nil _ _)]
          · rcases hindent with rfl | ⟨rfl, -, -⟩
            · simp
            · exact List.forall_mem_singleton.2 rfl
          · rcases hindent with rfl | ⟨rfl, hmore, -⟩
            · simp
            · have hcount := List.count_pos_iff.2 hmore
              simp
              omega
  append x e he y := by
    rcases exists_line x with h | ⟨line, rest, h, rfl⟩
    · exact tidyBehind_line_mark h he y
    · simp only [List.append_assoc, List.cons_append]
      rw [tidyBehind_append_lineFeed h, tidyBehind_append_lineFeed h, tidyRows_mark he, List.append_assoc]

/-! ## Guarding -/

/-- Does the text begin with a line end? -/
def beginsEmpty : List Char → Bool
  | '\n' :: _ | '\r' :: '\n' :: _ => true
  | _ => false

/-- What guarding makes of a character in front of a text: a line feed is followed by the indentation of the next line,
if that is not empty, and a carriage return before a line feed is dropped. -/
def guardedChar (c : Char) (cs : List Char) : List Char :=
  if c = '\n' ∧ beginsEmpty cs = false then ['\n', ' ', ' ']
  else if c = '\r' ∧ cs.head? = some '\n' then []
  else [c]

/-- What guarding makes of the text behind a character. -/
def guardBehind : List Char → List Char
  | [] => []
  | c :: cs => if isBlankText (c :: cs) then [] else guardedChar c cs ++ guardBehind cs

theorem guardBehind_of_blank (h : isBlankText cs = true) : guardBehind cs = [] := by
  cases cs with
  | nil => rfl
  | cons c cs => rw [guardBehind, if_pos h]

theorem guardBehind_cons (h : isBlankText (c :: cs) = false) :
    guardBehind (c :: cs) = guardedChar c cs ++ guardBehind cs := by
  rw [guardBehind, if_neg (by simp [h])]

theorem guardedChar_of_ne (hline : c ≠ '\n') (hreturn : c = '\r' → cs.head? ≠ some '\n') : guardedChar c cs = [c] := by
  rw [guardedChar, if_neg fun hc => hline hc.1, if_neg fun hc => hreturn hc.1 hc.2]

theorem guardedChar_lineFeed (cs : List Char) :
    guardedChar '\n' cs = '\n' :: if beginsEmpty cs = true then [] else [' ', ' '] := by
  cases h : beginsEmpty cs <;> simp [guardedChar, h]

theorem head?_ne_lineFeed (h : '\n' ∉ line) (hne : line ≠ []) (cs : List Char) : (line ++ cs).head? ≠ some '\n' := by
  obtain ⟨c, line, rfl⟩ := List.exists_cons_of_ne_nil hne
  exact fun hc => h (Option.some.inj hc ▸ List.mem_cons_self)

theorem dropFinalCR_cons (h : c = '\r' → line ≠ []) : dropFinalCR (c :: line) = c :: dropFinalCR line := by
  cases line with
  | nil =>
    unfold dropFinalCR
    split
    · next hlast => exact absurd rfl (h (Option.some.inj hlast))
    · rfl
  | cons d line =>
    simp only [dropFinalCR, List.getLast?_cons_cons, List.dropLast_cons_cons]
    split <;> rfl

theorem beginsEmpty_of_ne (hline : c ≠ '\n') (hreturn : c = '\r' → cs.head? ≠ some '\n') :
    beginsEmpty (c :: cs) = false := by
  unfold beginsEmpty
  split
  · next heq => exact absurd (List.cons.inj heq).1 hline
  · next heq =>
    obtain ⟨rfl, rfl⟩ := List.cons.inj heq
    exact absurd rfl (hreturn rfl)
  · rfl

theorem beginsEmpty_append_lineFeed (h : '\n' ∉ line) (cs : List Char) :
    beginsEmpty (line ++ '\n' :: cs) = (dropFinalCR line).isEmpty := by
  cases line with
  | nil => rfl
  | cons c line =>
    rw [List.mem_cons, not_or] at h
    by_cases hend : c = '\r' ∧ line = []
    · obtain ⟨rfl, rfl⟩ := hend
      rfl
    · have hne (hc : c = '\r') : line ≠ [] := fun hnil => hend ⟨hc, hnil⟩
      rw [dropFinalCR_cons hne]
      exact beginsEmpty_of_ne (Ne.symm h.1) fun hc => head?_ne_lineFeed h.2 (hne hc) _

theorem beginsEmpty_append (h : '\n' ∉ line) (htext : isBlankText line = false) (cs : List Char) :
    beginsEmpty (line ++ cs) = false := by
  cases line with
  | nil => cases htext
  | cons c line =>
    rw [List.mem_cons, not_or] at h
    refine beginsEmpty_of_ne (Ne.symm h.1) fun hc => head?_ne_lineFeed h.2 ?_ cs
    rintro rfl
    rw [hc] at htext
    cases htext

theorem ne_lineEnd (he : isBlank e = false) : e ≠ '\n' ∧ e ≠ '\r' := by constructor <;> rintro rfl <;> cases he

theorem beginsEmpty_append_mark (he : isBlank e = false) (x y : List Char) :
    beginsEmpty (x ++ e :: y) = beginsEmpty (x ++ [e]) := by
  have hmark (y : List Char) : beginsEmpty (e :: y) = false :=
    beginsEmpty_of_ne (ne_lineEnd he).1 fun hc => absurd hc (ne_lineEnd he).2
  rcases x with _ | ⟨c, _ | ⟨d, x⟩⟩
  · rw [List.nil_append, List.nil_append, hmark, hmark]
  · unfold beginsEmpty
    split <;> simp_all
  · unfold beginsEmpty
    split <;> simp_all

/-- The front of a line is kept, and blanks at the end of the text are left out. -/
theorem guardBehind_line (h : '\n' ∉ line) (hback : isBlankText y = true) : guardBehind (line ++ y) = trimEnd line := by
  induction line with
  | nil => exact guardBehind_of_blank hback
  | cons c line ih =>
    have hsame : isBlankText (c :: (line ++ y)) = isBlankText (c :: line) := by
      rw [← List.cons_append, isBlankText_append, hback, Bool.and_true]
    rw [List.mem_cons, not_or] at h
    cases hblank : isBlankText (c :: line) with
    | true => rw [List.cons_append, guardBehind_of_blank (hsame.trans hblank), trimEnd_eq_nil_iff.2 hblank]
    | false =>
      have hreturn (hc : c = '\r') : (line ++ y).head? ≠ some '\n' := by
        refine head?_ne_lineFeed h.2 ?_ y
        rintro rfl
        rw [hc] at hblank
        cases hblank
      rw [List.cons_append, guardBehind_cons (hsame.trans hblank), guardedChar_of_ne (Ne.symm h.1) hreturn, ih h.2,
        trimEnd_cons hblank, List.singleton_append]

/-- A line is kept up to its line end. -/
theorem guardBehind_append_lineFeed (h : '\n' ∉ line) (htext : isBlankText ('\n' :: cs) = false) :
    guardBehind (line ++ '\n' :: cs) = dropFinalCR line ++ guardBehind ('\n' :: cs) := by
  induction line with
  | nil => rfl
  | cons c line ih =>
    have hwhole : isBlankText (c :: (line ++ '\n' :: cs)) = false := by
      rw [← List.cons_append, isBlankText_append, htext, Bool.and_false]
    rw [List.mem_cons, not_or] at h
    rw [List.cons_append, guardBehind_cons hwhole, ih h.2]
    by_cases hend : c = '\r' ∧ line = []
    · obtain ⟨rfl, rfl⟩ := hend
      rfl
    · have hne (hc : c = '\r') : line ≠ [] := fun hnil => hend ⟨hc, hnil⟩
      rw [guardedChar_of_ne (Ne.symm h.1) fun hc => head?_ne_lineFeed h.2 (hne hc) _, dropFinalCR_cons hne]
      rfl

theorem laysOut_guardBehind : LaysOut guardBehind where
  nil := rfl
  step c cs := by
    cases hblank : isBlankText (c :: cs) with
    | true => exact .inr (.last (List.all_eq_true.1 hblank) (guardBehind_of_blank hblank))
    | false =>
      have hbreak (blanks rest : List Char) (hblanks : blanks = [] ∨ blanks = ['\r'])
          (hrest : isBlankText ('\n' :: rest) = false) (htext : c :: cs = blanks ++ '\n' :: rest)
          (hlaid : guardBehind (c :: cs) = guardBehind ('\n' :: rest)) : Relays guardBehind (c :: cs) := by
        refine .line (blanks ++ ['\n']) (if beginsEmpty rest = true then [] else [' ', ' ']) rest (by simp [htext]) ?_
          (by simp) (.inl (by simp)) ?_ ?_ ?_
        · rcases hblanks with rfl | rfl <;> simp [isBlank]
        · split <;> simp [isAsciiBlank]
        · split <;> simp
        · rw [hlaid, guardBehind_cons hrest, guardedChar_lineFeed]
          rfl
      by_cases hline : c = '\n'
      · subst hline
        exact .inr (hbreak [] cs (.inl rfl) hblank rfl rfl)
      by_cases hreturn : c = '\r' ∧ cs.head? = some '\n'
      · obtain ⟨rfl, hhead⟩ := hreturn
        obtain ⟨rest, rfl⟩ := List.head?_eq_some_iff.1 hhead
        exact .inr (hbreak ['\r'] rest (.inr rfl) hblank rfl (guardBehind_cons hblank))
      · refine .inl ?_
        rw [guardBehind_cons hblank, guardedChar_of_ne hline fun hc hhead => hreturn ⟨hc, hhead⟩]
        rfl
  append x e he y := by
    have htext (x y : List Char) : isBlankText (x ++ e :: y) = false := isBlankText_of_mem (by simp) he
    induction x with
    | nil =>
      have hkept (y : List Char) : guardBehind (e :: y) = e :: guardBehind y := by
        rw [guardBehind_cons (htext [] y), guardedChar_of_ne (ne_lineEnd he).1 fun hc => absurd hc (ne_lineEnd he).2]
        rfl
      rw [List.nil_append, List.nil_append, hkept, hkept]
      rfl
    | cons c x ih =>
      have hhead : (x ++ e :: y).head? = (x ++ [e]).head? := by cases x <;> rfl
      have hsame : guardedChar c (x ++ e :: y) = guardedChar c (x ++ [e]) := by
        rw [guardedChar, guardedChar, beginsEmpty_append_mark he, hhead]
      have hwhole (y : List Char) : isBlankText (c :: (x ++ e :: y)) = false := htext (c :: x) y
      rw [List.cons_append, List.cons_append, guardBehind_cons (hwhole y), guardBehind_cons (hwhole []), hsame, ih,
        List.append_assoc]

/-- The only line of a text that is guarded. -/
theorem lineFeed_guardedLine (h : '\n' ∉ line) (hback : isBlankText y = true) (htext : isBlankText line = false) :
    '\n' :: (lines (trimEnd (line ++ y))).flatMap guardedLine = guardBehind ('\n' :: (line ++ y)) ++ ['\n'] := by
  have hne : trimEnd line ≠ [] := fun hnil => by
    rw [trimEnd_eq_nil_iff.1 hnil] at htext
    cases htext
  have hwhole : isBlankText ('\n' :: (line ++ y)) = false := by
    rw [← List.singleton_append, isBlankText_append, isBlankText_append, htext, Bool.false_and, Bool.and_false]
  have hfront : trimEnd line <+: line := trimEnd_prefix line
  rw [trimEnd_append_of_blank hback, lines_of_not_mem (fun hmem => h (hfront.subset hmem)) hne,
    List.flatMap_singleton, guardedLine, if_neg (mt List.isEmpty_iff.1 hne), guardBehind_cons hwhole,
    guardedChar_lineFeed, beginsEmpty_append h htext, guardBehind_line h hback]
  rfl

/-- The lines of guarded code are what is made of it behind a line end. -/
theorem lineFeed_guardedLines (htext : isBlankText cs = false) :
    '\n' :: (lines (trimEnd cs)).flatMap guardedLine = guardBehind ('\n' :: cs) ++ ['\n'] := by
  induction cs using line_induction with
  | hlast line h => simpa using lineFeed_guardedLine h (y := []) rfl htext
  | hline line cs h ih =>
    cases hcs : isBlankText cs with
    | true =>
      have hback : isBlankText ('\n' :: cs) = true := hcs
      rw [isBlankText_append, hback, Bool.and_true] at htext
      exact lineFeed_guardedLine h hback htext
    | false =>
      have hback : isBlankText ('\n' :: cs) = false := hcs
      have hwhole : isBlankText ('\n' :: (line ++ '\n' :: cs)) = false := by
        rw [← List.cons_append, isBlankText_append, hback, Bool.and_false]
      rw [trimEnd_append hback, trimEnd_cons hback, lines_append_lineFeed h, List.flatMap_cons, guardedLine,
        guardBehind_cons hwhole, guardedChar_lineFeed, beginsEmpty_append_lineFeed h,
        guardBehind_append_lineFeed h hback]
      cases hdropped : (dropFinalCR line).isEmpty with
      | true => simp [List.isEmpty_iff.1 hdropped, ← ih hcs]
      | false => simp [← ih hcs]

/-! ## The code of a replacement -/

/-- The code of a text that is laid out behind a line end. -/
theorem codeLexemes_laidOut {f : List Char → List Char} {laid back : List Char} (hf : LaysOut f) (h : IsOrderly cs)
    (hlaid : '\n' :: laid = f ('\n' :: cs) ++ back) (hback : Editor.EndsLine back) :
    codeLexemes laid = (codeLexemes cs).map (Lexeme.layOut f) ++ codeLexemes back := by
  have hcode := hf.keepsCode hback h.lineFeed
  rwa [LaysOut.KeepsCode, ← hlaid, codeLexemes_gap rfl, codeLexemes_gap rfl] at hcode

theorem codeLexemes_tidy (h : IsOrderly cs) :
    codeLexemes (tidy cs) = (codeLexemes cs).map (Lexeme.layOut tidyBehind) := by
  by_cases hne : cs = []
  · subst hne
    have hnil : tidy [] = [] := rfl
    rw [hnil, codeLexemes_nil, List.map_nil]
  · have hlaid : '\n' :: tidy cs = tidyBehind ('\n' :: cs) ++ [] := by rw [lineFeed_tidy hne, List.append_nil]
    rw [codeLexemes_laidOut laysOut_tidyBehind h hlaid endsLine_nil, codeLexemes_nil, List.append_nil]

theorem lineFeed_not_mem_trim_line (text : List Char) : '\n' ∉ trim ((lines text).headD []) := by
  intro hmem
  have hfront : trim ((lines text).headD []) <+: trimStart ((lines text).headD []) := trimEnd_prefix _
  have hline : '\n' ∈ (lines text).headD [] := (List.dropWhile_suffix isBlank).subset (hfront.subset hmem)
  cases hlines : lines text with
  | nil =>
    rw [hlines] at hline
    cases hline
  | cons line rest =>
    rw [hlines] at hline
    exact lineFeed_not_mem_lines (hlines ▸ List.mem_cons_self) hline

/-- The note about an error is a comment. -/
theorem codeLexemes_fixNote (error : String) (rest : List Char) :
    codeLexemes (fixNote error ++ rest) = codeLexemes rest := by
  have hnote : fixNote error =
      '-' :: '-' :: ' ' :: 'f' :: 'i' :: 'x' :: ':' :: ' ' :: (trim ((lines error.toList).headD []) ++ ['\n']) := rfl
  have hline : '\n' ∉ ' ' :: 'f' :: 'i' :: 'x' :: ':' :: ' ' :: trim ((lines error.toList).headD []) := by
    simpa using lineFeed_not_mem_trim_line error.toList
  have hblank : '[' ≠ ' ' := by decide
  have hshort (level : Nat) :
      ¬ opener level <+: ' ' :: 'f' :: 'i' :: 'x' :: ':' :: ' ' :: trim ((lines error.toList).headD []) :=
    fun hopener => hblank (List.cons_prefix_cons.1 hopener).1
  rw [← codeLexemes_lineComment hline hshort rest, hnote]
  simp

/-- The lines before guarded code do not depend on it. -/
theorem codeLexemes_guardHeader (rest : List Char) :
    codeLexemes (guardHeader ++ rest) = codeLexemes guardHeader ++ codeLexemes rest := by
  obtain ⟨x, hx⟩ : ∃ x, guardHeader = x ++ ['\n'] := ⟨guardHeader.dropLast, rfl⟩
  have hclear : guardHeader.all (· ∉ ['"', '\'', '[', '-']) := rfl
  have hplain : PlainText guardHeader :=
    (IsUnmarked.of_all fun c hc => of_decide_eq_true (List.all_eq_true.1 hclear c hc)).plain
  have hcode := hplain.is_code (size x + 1)
  rw [hx] at hcode
  obtain ⟨ls, hls⟩ := codeLexemes_lineBreak hcode
  rw [hx, List.append_assoc, List.singleton_append, hls, hls, codeLexemes_nil, List.append_nil]

/-- Every carriage return is part of a line end. -/
def ReturnsEndLines (cs : List Char) : Prop := ∀ i < cs.length, cs[i]? = some '\r' → cs[i + 1]? = some '\n'

theorem return_not_mem_guardBehind (h : ReturnsEndLines cs) : '\r' ∉ guardBehind cs := by
  induction cs with
  | nil => exact List.not_mem_nil
  | cons c cs ih =>
    have hrest := ih fun i hi hc => h (i + 1) (Nat.succ_lt_succ hi) hc
    rw [guardBehind]
    split
    · exact List.not_mem_nil
    · rw [List.mem_append, not_or]
      refine ⟨?_, hrest⟩
      unfold guardedChar
      split
      · simp
      · split
        · exact List.not_mem_nil
        · next hkept =>
          rw [List.mem_singleton]
          intro hc
          have hnext : cs[0]? = some '\n' := h 0 (Nat.succ_pos _) (congrArg some hc.symm)
          exact hkept ⟨hc.symm, List.head?_eq_getElem?.trans hnext⟩

theorem return_not_mem_guarded {error? : Option String} (htext : isBlankText cs = false) (hreturn : ReturnsEndLines cs)
    (hnote : ∀ error ∈ error?, '\r' ∉ fixNote error) : '\r' ∉ guarded cs error? := by
  have hlines : '\r' ∉ (lines (trimEnd cs)).flatMap guardedLine := by
    have hbehind : ReturnsEndLines ('\n' :: cs) := by
      rintro (_ | i) hi hc
      · cases hc
      · exact hreturn i (Nat.lt_of_succ_lt_succ hi) hc
    have hlaid := return_not_mem_guardBehind hbehind
    intro hmem
    have hwhole : '\r' ∈ guardBehind ('\n' :: cs) ++ ['\n'] :=
      lineFeed_guardedLines htext ▸ List.mem_cons_of_mem '\n' hmem
    simp [hlaid] at hwhole
  have hheader : '\r' ∉ guardHeader := by decide
  have hfooter : '\r' ∉ guardFooter := by decide
  simp only [guarded, List.mem_append, not_or]
  refine ⟨⟨⟨?_, hheader⟩, hlines⟩, hfooter⟩
  cases error? with
  | none => exact List.not_mem_nil
  | some error => exact hnote error rfl

theorem codeLexemes_guarded {error? : Option String} (h : IsOrderly cs) (htext : isBlankText cs = false)
    (hreturn : ReturnsEndLines cs) (hnote : ∀ error ∈ error?, '\r' ∉ fixNote error) :
    codeLexemes (normalize (guarded cs error?)) =
      codeLexemes guardHeader ++ (codeLexemes cs).map (Lexeme.layOut guardBehind) ++ codeLexemes guardFooter := by
  have hskip (rest : List Char) : codeLexemes ((error?.map fixNote).getD [] ++ rest) = codeLexemes rest := by
    cases error? with
    | none => rfl
    | some error => exact codeLexemes_fixNote error rest
  have hlaid : '\n' :: ((lines (trimEnd cs)).flatMap guardedLine ++ guardFooter) =
      guardBehind ('\n' :: cs) ++ '\n' :: guardFooter := by
    rw [← List.cons_append, lineFeed_guardedLines htext, List.append_assoc]
    rfl
  rw [normalize_of_not_mem (return_not_mem_guarded htext hreturn hnote), guarded, List.append_assoc,
    List.append_assoc, hskip, codeLexemes_guardHeader, codeLexemes_laidOut laysOut_guardBehind h hlaid
    (endsLine_lineFeed _), codeLexemes_gap rfl, List.append_assoc]

/-! ## The strings of a replacement -/

theorem map_layOut_eq_iff {f : List Char → List Char} {ls : List Lexeme} :
    ls.map (Lexeme.layOut f) = ls ↔ ∀ l ∈ ls, l.kind = .string → f l.text = l.text := by
  have hlexeme (l : Lexeme) : l.layOut f = l ↔ (l.kind = .string → f l.text = l.text) := by
    unfold Lexeme.layOut
    split
    · next hkind =>
      refine ⟨fun heq _ => congrArg Lexeme.text heq, fun heq => ?_⟩
      rw [heq hkind]
    · next hkind => exact iff_of_true rfl fun h => absurd h hkind
  simp only [← hlexeme]
  conv_lhs => rhs; rw [← List.map_id ls]
  exact List.map_inj_left

theorem terminated_of_mem {l : Lexeme} (h : AllClosed cs) (hl : l ∈ codeLexemes cs) (hkind : l.kind = .string) :
    Terminated .string l.text := by
  rw [codeLexemes_eq, List.mem_filterMap] at hl
  obtain ⟨piece, hpiece, hcode⟩ := hl
  cases piece with
  | gap c => cases hcode
  | lexeme found =>
    unfold Piece.code? at hcode
    dsimp only at hcode
    split at hcode
    · cases hcode
    · obtain rfl := Option.some.inj hcode
      exact (h found hpiece).string hkind

/-- The characters of a text but for its carriage returns. -/
def marks (cs : List Char) : Nat := cs.countP (· != '\r')

theorem marks_append (x y : List Char) : marks (x ++ y) = marks x + marks y := List.countP_append

theorem marks_guardedChar (c : Char) (cs : List Char) :
    marks [c] ≤ marks (guardedChar c cs) ∧
      (c = '\n' → beginsEmpty cs = false → marks [c] < marks (guardedChar c cs)) := by
  unfold guardedChar
  split
  · next hline =>
    rw [hline.1]
    exact ⟨by decide, fun _ _ => by decide⟩
  · next hline =>
    refine ⟨?_, fun hc hempty => absurd ⟨hc, hempty⟩ hline⟩
    split
    · next hreturn =>
      rw [hreturn.1]
      decide
    · exact Nat.le_refl _

theorem lineFeed_mem_of_beginsEmpty (h : beginsEmpty cs = true) : '\n' ∈ cs := by
  unfold beginsEmpty at h
  split at h
  · exact List.mem_cons_self
  · exact List.mem_cons_of_mem _ List.mem_cons_self
  · cases h

/-- Guarding adds characters to a text that has several lines. -/
theorem marks_guardBehind (he : isBlank e = false) (x : List Char) :
    marks (x ++ [e]) ≤ marks (guardBehind (x ++ [e])) ∧
      ('\n' ∈ x → marks (x ++ [e]) < marks (guardBehind (x ++ [e]))) := by
  induction x with
  | nil =>
    have htext : isBlankText [e] = false := isBlankText_of_mem List.mem_cons_self he
    rw [List.nil_append, guardBehind_cons htext, marks_append]
    exact ⟨Nat.le_trans (marks_guardedChar e []).1 (Nat.le_add_right _ _), fun hmem => nomatch hmem⟩
  | cons c x ih =>
    have htext : isBlankText (c :: (x ++ [e])) = false := isBlankText_of_mem (by simp) he
    have hsplit : marks (c :: (x ++ [e])) = marks [c] + marks (x ++ [e]) := marks_append [c] _
    obtain ⟨hkept, hmore⟩ := marks_guardedChar c (x ++ [e])
    rw [List.cons_append, guardBehind_cons htext, marks_append, hsplit]
    refine ⟨Nat.add_le_add hkept ih.1, fun hmem => ?_⟩
    have hrest : '\n' ∈ x ∨ c = '\n' ∧ beginsEmpty (x ++ [e]) = false := by
      rcases List.mem_cons.1 hmem with hc | hmem
      · cases hempty : beginsEmpty (x ++ [e]) with
        | false => exact .inr ⟨hc.symm, rfl⟩
        | true =>
          rcases List.mem_append.1 (lineFeed_mem_of_beginsEmpty hempty) with hmem | hmem
          · exact .inl hmem
          · exact absurd (List.mem_singleton.1 hmem).symm (ne_lineEnd he).1
      · exact .inl hmem
    rcases hrest with hmem | ⟨hc, hempty⟩
    · exact Nat.add_lt_add_of_le_of_lt hkept (ih.2 hmem)
    · exact Nat.add_lt_add_of_lt_of_le (hmore hc hempty) ih.1

theorem guardBehind_eq_iff (he : isBlank e = false) : guardBehind (x ++ [e]) = x ++ [e] ↔ '\n' ∉ x ++ [e] := by
  have htext : isBlankText [e] = false := isBlankText_of_mem List.mem_cons_self he
  constructor
  · intro heq hmem
    rcases List.mem_append.1 hmem with hmem | hmem
    · have hmore := (marks_guardBehind he x).2 hmem
      rw [heq] at hmore
      exact Nat.lt_irrefl _ hmore
    · exact (ne_lineEnd he).1 (List.mem_singleton.1 hmem).symm
  · intro hline
    have hkept := guardBehind_line (y := []) hline rfl
    rw [List.append_nil] at hkept
    rw [hkept, trimEnd_append htext, trimEnd_cons htext]
    rfl

/-- The offline replacement of code whose strings and long brackets are closed has the same code if and only if it has
the same strings: tidying leaves those that are tidy, guarding those that do not go over a line end. -/
theorem replacements_keep_iff (reg : Registry) (q : Request) (htext : isBlankText q.selection = false)
    (h : IsOrderly q.selection) :
    (q.action = .optimize →
      ∃ text, templateAnswer reg q = .ok text ∧
        (codeLexemes text = codeLexemes q.selection ↔
          ∀ l ∈ codeLexemes q.selection, l.kind = .string → tidy l.text = l.text)) ∧
    ∀ error?, q.action = .fix error? → ReturnsEndLines q.selection → (∀ error ∈ error?, '\r' ∉ fixNote error) →
      ∃ text, templateAnswer reg q = .ok text ∧
        (codeLexemes (normalize text) =
            codeLexemes guardHeader ++ codeLexemes q.selection ++ codeLexemes guardFooter ↔
          ∀ l ∈ codeLexemes q.selection, l.kind = .string → '\n' ∉ l.text) := by
  have hselected : ¬ (q.action ≠ .suggest ∧ isBlankText q.selection = true) := by simp [htext]
  constructor
  · intro haction
    refine ⟨tidy q.selection, by rw [templateAnswer, if_neg hselected, haction], ?_⟩
    rw [codeLexemes_tidy h, map_layOut_eq_iff]
    refine forall₃_congr fun l hl hkind => ?_
    obtain ⟨c, x, hl, hc⟩ := (terminated_of_mem h.closed hl hkind).exists_cons
    rw [hl, tidy_eq hc]
  · intro error? haction hreturn hnote
    refine ⟨guarded q.selection error?, by rw [templateAnswer, if_neg hselected, haction], ?_⟩
    rw [codeLexemes_guarded h htext hreturn hnote, List.append_left_inj, List.append_right_inj, map_layOut_eq_iff]
    refine forall₃_congr fun l hl hkind => ?_
    obtain ⟨x, e, hl, he⟩ := (terminated_of_mem h.closed hl hkind).exists_concat
    rw [hl, guardBehind_eq_iff he]

/-- A statement with a string, a line end of two characters, and another statement. -/
theorem replacements_keep_quoted :
    let selection := ['s', '=', '\'', 'a', '\'', '\r', '\n', 't', '=', 's']
    let ask (action : Action) : Request := ⟨0, 0, action, selection, [], 0⟩
    isBlankText selection = false ∧ IsOrderly selection ∧ ReturnsEndLines selection ∧ '\r' ∉ fixNote "boom" ∧
      (∃ text, templateAnswer default (ask .optimize) = .ok text ∧ codeLexemes text = codeLexemes selection) ∧
      ∃ text, templateAnswer default (ask (.fix (some "boom"))) = .ok text ∧
        codeLexemes (normalize text) = codeLexemes guardHeader ++ codeLexemes selection ++ codeLexemes guardFooter := by
  intro selection ask
  have htext : isBlankText selection = false := rfl
  have hreturn : ReturnsEndLines selection := by
    unfold ReturnsEndLines
    decide
  have hnote : ∀ error ∈ some "boom", '\r' ∉ fixNote error := by
    rintro _ ⟨⟩
    decide
  have hpieces : pieces selection = [.lexeme ⟨.name, ['s']⟩, .lexeme ⟨.symbol, ['=']⟩,
      .lexeme ⟨.string, ['\'', 'a', '\'']⟩, .gap '\r', .gap '\n', .lexeme ⟨.name, ['t']⟩, .lexeme ⟨.symbol, ['=']⟩,
      .lexeme ⟨.name, ['s']⟩] := by decide +kernel
  have hcode : codeLexemes selection = [⟨.name, ['s']⟩, ⟨.symbol, ['=']⟩, ⟨.string, ['\'', 'a', '\'']⟩,
      ⟨.name, ['t']⟩, ⟨.symbol, ['=']⟩, ⟨.name, ['s']⟩] := by
    rw [codeLexemes_eq, hpieces]
    rfl
  have horderly : IsOrderly selection := by
    constructor
    · intro l hl
      rw [hpieces] at hl
      simp only [List.mem_cons, Piece.lexeme.injEq, reduceCtorEq, List.not_mem_nil, or_false, false_or] at hl
      rcases hl with rfl | rfl | rfl | rfl | rfl | rfl
      · exact ⟨nofun, nofun⟩
      · exact ⟨nofun, nofun⟩
      · exact ⟨fun _ => .quoted (.inr rfl) (.plain (by decide) (by decide) (by decide) .nil), nofun⟩
      · exact ⟨nofun, nofun⟩
      · exact ⟨nofun, nofun⟩
      · exact ⟨nofun, nofun⟩
    · rintro ⟨front, back, hsplit, -⟩
      have htab : .lexeme ⟨.symbol, ['\x0b']⟩ ∈ pieces selection :=
        hsplit ▸ List.mem_append_right _ List.mem_cons_self
      rw [hpieces] at htab
      revert htab
      decide
  obtain ⟨tidied, htidied, htidyKeeps⟩ := (replacements_keep_iff default (ask .optimize) htext horderly).1 rfl
  obtain ⟨wrapped, hwrapped, hguardKeeps⟩ :=
    (replacements_keep_iff default (ask (.fix (some "boom"))) htext horderly).2 _ rfl hreturn hnote
  refine ⟨htext, horderly, hreturn, hnote _ rfl, ⟨tidied, htidied, htidyKeeps.2 ?_⟩,
    wrapped, hwrapped, hguardKeeps.2 ?_⟩
  · change ∀ l ∈ codeLexemes selection, l.kind = .string → tidy l.text = l.text
    rw [hcode]
    decide
  · change ∀ l ∈ codeLexemes selection, l.kind = .string → '\n' ∉ l.text
    rw [hcode]
    decide

/-- A string of two lines loses the blank at its line end when it is tidied, and is indented when it is guarded. -/
theorem replacements_change_string :
    let selection := ['[', '[', 'a', ' ', '\n', 'b', ']', ']']
    let ask (action : Action) : Request := ⟨0, 0, action, selection, [], 0⟩
    isBlankText selection = false ∧ AllClosed selection ∧
      (∃ text, templateAnswer default (ask .optimize) = .ok text ∧ codeLexemes text ≠ codeLexemes selection) ∧
      ∃ text, templateAnswer default (ask (.fix none)) = .ok text ∧
        codeLexemes (normalize text) ≠ codeLexemes guardHeader ++ codeLexemes selection ++ codeLexemes guardFooter := by
  intro selection ask
  have hpieces : pieces selection = [.lexeme ⟨.string, selection⟩] := by decide +kernel
  have hclosed : AllClosed selection := by
    intro l hl
    rw [hpieces, List.mem_singleton] at hl
    obtain rfl := Piece.lexeme.inj hl
    have hlong : IsLong 0 selection :=
      ⟨['a', ' ', '\n', 'b', ']', ']'], rfl,
        .cons (by decide) (.cons (by decide) (.cons (by decide) (.cons (by decide) .self)))⟩
    exact ⟨fun _ => .longString hlong, nofun⟩
  refine ⟨rfl, hclosed, ⟨tidy selection, rfl, ?_⟩, guarded selection none, rfl, ?_⟩
  · decide +kernel
  · decide +kernel

end Scriptorium.Assist
