import Scriptorium.Settings.Text
import Scriptorium.Proofs.Json.LineEnds
import Scriptorium.Proofs.Text.LineCuts
import Scriptorium.Proofs.Text.Trim

/-!
# Lines of comments in settings

Comments are invisible, and nothing else is (`comments_invisible`). No line of an accepted text looks like a comment,
since what follows a line end in it is a token and no token begins with a slash; cutting the text into lines and joining
them again changes only line ends, which are alike to the reader; and a line of comment that is put between two lines is
dropped again.
-/

namespace Scriptorium.Settings

open Text Json

variable {cs ds line : List Char}

/-! ## Lines that are comments -/

theorem isComment_iff : isComment line = true ↔ ∃ blanks rest, line = blanks ++ '/' :: '/' :: rest ∧
    ∀ x ∈ blanks, isBlank x = true := by
  rw [isComment, startsWith, List.isPrefixOf_iff_prefix]
  constructor
  · rintro hlead
    obtain ⟨rest, hrest⟩ := hlead.trans ( trimEnd_prefix (trimStart line))
    have hline : line.takeWhile isBlank ++ trimStart line = line := List.takeWhile_append_dropWhile
    rw [← hrest] at hline
    exact ⟨line.takeWhile isBlank, rest, hline.symm, fun x hx => List.mem_takeWhile_imp hx⟩
  · rintro ⟨blanks, rest, rfl, hblanks⟩
    have hstart : trimStart (blanks ++ '/' :: '/' :: rest) = '/' :: '/' :: rest := by
      rw [trimStart, List.dropWhile_append_of_pos hblanks]
      rfl
    rw [trim, hstart, trimEnd_cons (by rfl), trimEnd_cons (by rfl)]
    exact ⟨trimEnd rest, rfl⟩

theorem isComment_dropFinalCR (line : List Char) : isComment (dropFinalCR line) = isComment line := by
  rw [Bool.eq_iff_iff, isComment_iff, isComment_iff]
  unfold dropFinalCR
  split
  · next hlast =>
    obtain ⟨front, rfl⟩ := List.getLast?_eq_some_iff.1 hlast
    rw [List.dropLast_concat]
    constructor
    · rintro ⟨blanks, rest, rfl, hblanks⟩
      exact ⟨blanks, rest ++ ['\r'], by simp, hblanks⟩
    · rintro ⟨blanks, rest, hline, hblanks⟩
      rcases List.eq_nil_or_concat' rest with rfl | ⟨rest, last, rfl⟩
      · have hlast' := congrArg List.getLast? hline
        simp at hlast'
      · refine ⟨blanks, rest, ?_, hblanks⟩
        have hfront := congrArg List.dropLast hline
        rw [List.dropLast_concat] at hfront
        rw [hfront, ← List.cons_append, ← List.cons_append, ← List.append_assoc, List.dropLast_concat]
  · rfl

/-! ## No comments in accepted texts -/

/-- The text begins with gaps and a character that begins a token, or holds nothing but gaps. -/
def Clear (cs : List Char) : Prop := ∀ x ∈ (skipGap cs).head?, isBlank x = false ∧ x ≠ '/'

theorem clear_of_gap (h : ∀ x ∈ cs, isGap x = true) : Clear cs := by
  rw [Clear, skipGap, List.dropWhile_eq_nil_iff.2 h]
  simp

theorem clear_of_beginsLine (h : BeginsLine (skipGap cs)) : Clear cs := by
  obtain ⟨c, tail, hhead, hc⟩ := h
  rw [Clear, hhead]
  simpa using hc

/-- The line that such a text begins with is no comment. -/
theorem Clear.not_isComment (h : Clear cs) (hline : line <+: cs) : isComment line = false := by
  rw [← Bool.not_eq_true, isComment_iff]
  rintro ⟨blanks, rest, rfl, hblanks⟩
  obtain ⟨after, rfl⟩ := hline
  rw [Clear, skipGap, List.append_assoc, List.dropWhile_append] at h
  split at h
  · exact (h '/' rfl).2 rfl
  · next hne =>
    -- a blank that is no gap stands before the slashes
    obtain ⟨x, tail, hx⟩ := List.exists_cons_of_ne_nil (mt List.isEmpty_iff.2 hne)
    have hblank := hblanks x ((List.dropWhile_sublist isGap).subset (hx ▸ List.mem_cons_self))
    rw [(h x (by rw [hx]; rfl)).1] at hblank
    cases hblank

theorem clear_of_read? {v : Json} (h : read? cs = some v) :
    Clear cs ∧ ∀ before after, cs = before ++ '\n' :: after → Clear after := by
  obtain ⟨front, gap, rfl, hbegins, hlaid, hgap⟩ := laid_of_read? h
  refine ⟨clear_of_beginsLine (hbegins.skipGap_append gap), fun before after hcut => ?_⟩
  rcases List.append_eq_append_iff.1 hcut with ⟨more, -, htail⟩ | ⟨more, hfront, htail⟩
  · have hafter : after <:+ gap := ⟨more ++ ['\n'], by simp [htail]⟩
    exact clear_of_gap fun x hx => hgap x (hafter.subset hx)
  · rcases List.cons_eq_append_iff.1 htail with ⟨-, rfl⟩ | ⟨more, rfl, rfl⟩
    · exact clear_of_gap fun x hx => hgap x (List.mem_cons_of_mem _ hx)
    · exact clear_of_beginsLine ((hlaid before more hfront).skipGap_append gap)

/-- No line is a comment if each begins so. -/
theorem not_isComment_of_clear (h : Clear cs) (hcuts : ∀ before after, cs = before ++ '\n' :: after → Clear after) :
    ∀ line ∈ lines cs, isComment line = false := by
  induction cs using line_induction with
  | hlast last hlast =>
    by_cases hne : last = []
    · simp [hne]
    · rw [lines_of_not_mem hlast hne]
      simpa using h.not_isComment (List.prefix_refl last)
  | hline first rest hfirst ih =>
    rw [lines_append_lineFeed hfirst, List.forall_mem_cons]
    refine ⟨h.not_isComment (List.IsPrefix.trans ( dropFinalCR_prefix first) (List.prefix_append _ _)), ?_⟩
    refine ih (hcuts first rest rfl) fun before after hcut => hcuts (first ++ '\n' :: before) after ?_
    simp [hcut]

/-! ## Lines cut and joined -/

theorem exists_dropFinalCR (line : List Char) :
    ∃ cr, dropFinalCR line ++ cr = line ∧ (cr = [] ∨ cr = ['\r']) := by
  unfold dropFinalCR
  split
  · next hlast =>
    obtain ⟨front, rfl⟩ := List.getLast?_eq_some_iff.1 hlast
    exact ⟨['\r'], by simp, .inr rfl⟩
  · exact ⟨[], by simp, .inl rfl⟩

/-- The lines joined again are the text, but for CRs before line ends and the end of the last line. -/
theorem alike_join_lines (cs : List Char) : Alike cs (join ['\n'] (lines cs)) := by
  induction cs using line_induction with
  | hlast last hlast =>
    by_cases hne : last = []
    · rw [hne]
      exact .refl []
    · rw [lines_of_not_mem hlast hne]
      exact .refl last
  | hline first rest hfirst ih =>
    rw [lines_append_lineFeed hfirst]
    obtain ⟨cr, hcr, hcases⟩ := exists_dropFinalCR first
    generalize dropFinalCR first = front at hcr
    subst hcr
    rw [List.append_assoc]
    by_cases hrest : rest = []
    · subst hrest
      rw [lines_nil, join]
      have hends : Alike (cr ++ ['\n']) [] := .ends (by rcases hcases with rfl | rfl <;> simp [isGap]) (by simp)
      simpa using hends.append front
    · rw [join_cons _ _ (mt lines_eq_nil_iff.1 hrest)]
      refine Alike.append front ?_
      rcases hcases with rfl | rfl
      · exact ih.keep '\n'
      · exact (ih.keep '\n').skip

theorem parse?_of_not_isComment (text : String) (h : ∀ line ∈ lines text.toList, isComment line = false) :
    parse? text = readStrict? text.toList := by
  have hfilter : (lines text.toList).filter (!isComment ·) = lines text.toList :=
    List.filter_eq_self.2 fun line hline => by rw [h line hline, Bool.not_false]
  rw [parse?, readStrict?, readStrict?, dropComments, hfilter, read?_eq_of_alike (alike_join_lines text.toList)]

theorem parse?_of_readStrict? {text : String} {s : Settings} (h : readStrict? text.toList = some s) :
    parse? text = some s := by
  obtain ⟨v, hv, -⟩ := Option.bind_eq_some_iff.1 h
  obtain ⟨hclear, hcuts⟩ := clear_of_read? hv
  rw [parse?_of_not_isComment text (not_isComment_of_clear hclear hcuts), h]

/-! ## Comments put between lines -/

/-- The text with lines of comments put in where lines begin. A last line that has no line end can be given one, so that
a comment follows it. -/
inductive Commented (text : List Char) : List Char → Prop where
  | same : Commented text text
  | line {before comment after : List Char} (h : Commented text (before ++ after)) (hbefore : EndsLine before)
      (hline : '\n' ∉ comment) (hcomment : isComment comment = true) :
      Commented text (before ++ comment ++ '\n' :: after)
  | last {before comment : List Char} (h : Commented text before) (hbefore : EndsLine before) (hline : '\n' ∉ comment)
      (hcomment : isComment comment = true) : Commented text (before ++ comment)
  | ended {before ending : List Char} (h : Commented text before) (hbefore : ¬ EndsLine before)
      (hending : ending = ['\n'] ∨ ending = ['\r', '\n']) : Commented text (before ++ ending)

theorem dropComments_line {before comment after : List Char} (hbefore : EndsLine before) (hline : '\n' ∉ comment)
    (hcomment : isComment comment = true) :
    dropComments (before ++ comment ++ '\n' :: after) = dropComments (before ++ after) := by
  rw [dropComments, dropComments, List.append_assoc, lines_append hbefore, lines_append hbefore,
    lines_append_lineFeed hline, List.filter_append, List.filter_append,
    List.filter_cons_of_neg (by rw [isComment_dropFinalCR, hcomment]; simp)]

theorem ne_nil_of_isComment (h : isComment line = true) : line ≠ [] := by
  rintro rfl
  cases h

theorem dropComments_last {before comment : List Char} (hbefore : EndsLine before) (hline : '\n' ∉ comment)
    (hcomment : isComment comment = true) : dropComments (before ++ comment) = dropComments before := by
  rw [dropComments, dropComments, lines_append hbefore, lines_of_not_mem hline (ne_nil_of_isComment hcomment),
    List.filter_append, List.filter_cons_of_neg (by simp [hcomment]), List.filter_nil, List.append_nil]

/-- The last line joined to the others. -/
theorem exists_join_concat (parts : List (List Char)) :
    ∃ front, ∀ last, join ['\n'] (parts ++ [last]) = front ++ last := by
  induction parts with
  | nil => exact ⟨[], fun _ => rfl⟩
  | cons part parts ih =>
    obtain ⟨front, hfront⟩ := ih
    refine ⟨part ++ '\n' :: front, fun last => ?_⟩
    rw [List.cons_append, join_cons _ _ (by simp), hfront, List.append_assoc, List.cons_append]

/-- The line end changes at most the CR before it. -/
theorem alike_dropComments_ended {before ending : List Char} (hbefore : ¬ EndsLine before)
    (hending : ending = ['\n'] ∨ ending = ['\r', '\n']) :
    Alike (dropComments before) (dropComments (before ++ ending)) := by
  obtain ⟨front, last, hfront, hlast, hne, rfl⟩ := exists_lastLine hbefore
  obtain ⟨last', hlines, hlast'⟩ : ∃ last', lines (last ++ ending) = [last'] ∧
      (last' = last ∨ last' = dropFinalCR last) := by
    rcases hending with rfl | rfl
    · exact ⟨dropFinalCR last, lines_append_lineFeed hlast [], .inr rfl⟩
    · have hmem : '\n' ∉ last ++ ['\r'] := by simpa using hlast
      have hline := lines_append_lineFeed hmem []
      exact ⟨last, by simpa [dropFinalCR] using hline, .inl rfl⟩
  have hcomment : isComment last' = isComment last := by
    rcases hlast' with rfl | rfl
    · rfl
    · exact isComment_dropFinalCR last
  rw [dropComments, dropComments, List.append_assoc, lines_append hfront, lines_append hfront,
    lines_of_not_mem hlast hne, hlines, List.filter_append, List.filter_append]
  cases hkept : isComment last with
  | true =>
    rw [List.filter_cons_of_neg (by simp [hkept]), List.filter_cons_of_neg (by simp [hcomment, hkept])]
    exact .refl _
  | false =>
    rw [List.filter_cons_of_pos (by simp [hkept]), List.filter_cons_of_pos (by simp [hcomment, hkept])]
    obtain ⟨others, hothers⟩ := exists_join_concat ((lines front).filter (!isComment ·))
    simp only [List.filter_nil]
    rw [hothers, hothers]
    refine Alike.append others ?_
    rcases hlast' with rfl | rfl
    · exact .refl _
    · obtain ⟨cr, hcr, hcases⟩ := exists_dropFinalCR last
      have hends : Alike cr [] := .ends (by rcases hcases with rfl | rfl <;> simp [isGap]) (by simp)
      simpa [hcr] using hends.append (dropFinalCR last)

theorem Commented.read?_eq {text commented : List Char} (h : Commented text commented) :
    read? (dropComments commented) = read? (dropComments text) := by
  induction h with
  | same => rfl
  | line _ hbefore hline hcomment ih => rw [dropComments_line hbefore hline hcomment, ih]
  | last _ hbefore hline hcomment ih => rw [dropComments_last hbefore hline hcomment, ih]
  | ended _ hbefore hending ih => rw [← read?_eq_of_alike (alike_dropComments_ended hbefore hending), ih]

/-- **Comments are invisible.** What is read strictly is read as the same settings; a text without lines of comments is
read as it is read strictly; and lines of comments that are put in between lines change neither the settings that are
read nor that none are. -/
theorem comments_invisible :
    (∀ text s, readStrict? text.toList = some s → parse? text = some s) ∧
    (∀ text, (∀ line ∈ lines text.toList, isComment line = false) → parse? text = readStrict? text.toList) ∧
    (∀ text commented : String, Commented text.toList commented.toList → parse? commented = parse? text) := by
  refine ⟨fun text s h => parse?_of_readStrict? h, parse?_of_not_isComment, fun text commented h => ?_⟩
  rw [parse?, parse?, readStrict?, readStrict?, h.read?_eq]

/-- A comment above a text whose only line has no line end, and one below it. -/
theorem comments_invisible_around :
    readStrict? "\x7b\x7d".toList = some {} ∧ parse? "\x7b\x7d" = some {} ∧
      parse? "  // above\n\x7b\x7d\r\n//below" = some {} := by
  have hstrict : readStrict? "\x7b\x7d".toList = some {} := rfl
  have hparse := comments_invisible.1 "\x7b\x7d" {} hstrict
  have habove : Commented "\x7b\x7d".toList "  // above\n\x7b\x7d".toList :=
    @Commented.line _ [] "  // above".toList _ .same (.inl rfl) (by decide) rfl
  have hended : Commented "\x7b\x7d".toList "  // above\n\x7b\x7d\r\n".toList :=
    habove.ended (by unfold EndsLine; decide) (.inr rfl)
  have hbelow : Commented "\x7b\x7d".toList "  // above\n\x7b\x7d\r\n//below".toList :=
    @Commented.last _ _ "//below".toList hended (.inr rfl) (by decide) rfl
  exact ⟨hstrict, hparse, (comments_invisible.2.2 _ _ hbelow).trans hparse⟩

end Scriptorium.Settings
