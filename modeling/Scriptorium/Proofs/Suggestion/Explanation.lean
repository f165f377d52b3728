import Scriptorium.Proofs.Editor.LineBreaks
import Scriptorium.Proofs.Suggestion.Generations
import Scriptorium.Proofs.Text.Lines
import Scriptorium.Proofs.Text.Trim

/-!
# Explanations

An accepted explanation goes above a line that begins in code. It leaves the code of every buffer as it was
exactly if what is shown of the reply is nothing but complete comments, and so it is with every reply of ordinary
lines (`explanation_adds_comments`).
-/

namespace Scriptorium.Assist

open Editor Text

/-! ## What is shown -/

/-- The lines that a reply puts into the buffer as an explanation. -/
def shownExplanation (reply : List Char) : List Char := normalize (asComment reply)

theorem shownExplanation_cases (reply : List Char) :
    shownExplanation reply = [] ∨ ∃ x, shownExplanation reply = x ++ ['\n'] := by
  unfold shownExplanation asComment
  rcases List.eq_nil_or_concat' (lines (trim reply)) with hnil | ⟨front, line, hlines⟩
  · rw [hnil]
    exact .inl rfl
  · rw [hlines, List.flatMap_append, List.flatMap_singleton]
    refine .inr (List.getLast?_eq_some_iff.1 (getLast?_normalize ?_))
    rw [← List.append_assoc, List.getLast?_concat]

theorem dash_mem_commentLine (line : List Char) : '-' ∈ commentLine line := by
  unfold commentLine
  dsimp only
  split
  · next hdashes =>
    have hmem := (List.isPrefixOf_iff_prefix.1 hdashes).subset (List.mem_cons_self (a := '-'))
    exact (List.dropWhile_suffix isBlank).subset hmem
  · split <;> exact List.mem_cons_self

/-- What is shown is not blank unless it is nothing. -/
theorem asComment_shown (reply : List Char) (h : asComment reply ≠ []) :
    isBlankText (asComment reply) = false := by
  obtain ⟨line, hline⟩ : ∃ line, line ∈ lines (trim reply) := by
    refine List.exists_mem_of_ne_nil _ fun hnil => h ?_
    rw [asComment, hnil]
    rfl
  have hdash : '-' ∈ asComment reply :=
    List.mem_flatMap.2 ⟨line, hline, List.mem_append_left _ (dash_mem_commentLine line)⟩
  rw [isBlankText, List.all_eq_false]
  exact ⟨'-', hdash, by decide⟩

/-! ## Accepting -/

theorem Request.boundary_anchor {b : Buffer} (h : b.WellFormed) :
    Boundary (Request.anchor b .explain).start b.text := by
  simp only [Request.anchor]
  cases hselection : b.selection with
  | none => exact (Buffer.lineAround_bounds h.cursor).1
  | some r => exact (h.selection r hselection).1

/-- A session in which an explanation was asked for where a line begins in code, `reply` came while the request
waited for it, and accepting it succeeds. -/
structure Explanation (reply : List Char) where
  /-- The session before the events. -/
  first : Session
  /-- It is a new one, but for what the user has done to the buffer. -/
  isNew : ∃ id actions timeoutMillis journal, first = Session.start id actions timeoutMillis journal
  events : List Event
  generation : Nat
  /-- The session when the explanation was asked for. -/
  asked : Session
  triggered : Session.Triggered first events generation .explain asked
  inCode : isCodePosition asked.buffer.text (Request.target asked.buffer .explain).start = true
  answered : Session.Answered first events generation .explain (Request.target asked.buffer .explain) reply
  accepted : ((first.run events).step .accept).1 = .outcome (some (.accepted generation))

namespace Explanation

variable {reply : List Char}

/-- The session when the user accepts. -/
def session (x : Explanation reply) : Session := x.first.run x.events

/-- The text before the user accepts. -/
def before (x : Explanation reply) : List Char := x.session.buffer.text

/-- The text after the user has accepted. -/
def after (x : Explanation reply) : List Char := (x.session.step .accept).2.buffer.text

theorem invariant (x : Explanation reply) (events : List Event) : Session.Invariant x.first events := by
  obtain ⟨id, actions, timeoutMillis, journal, hfirst⟩ := x.isNew
  rw [hfirst]
  exact Session.invariant_run id actions timeoutMillis journal events

theorem issued (x : Explanation reply) : x.first.Issued := by
  obtain ⟨id, actions, timeoutMillis, journal, hfirst⟩ := x.isNew
  rw [hfirst]
  exact Session.issued_start id actions timeoutMillis journal

/-- The lines of an explanation go where a line of the text begins in code. -/
theorem shape (x : Explanation reply) :
    ∃ head tail, x.before = head ++ tail ∧ x.after = head ++ shownExplanation reply ++ tail ∧
      isCodePosition x.before (size head) = true ∧ (head = [] ∨ ∃ y, head = y ++ ['\n']) := by
  obtain ⟨t, action, text, head, middle, tail, htriggered, hbefore, hanswered, hcuts, hafter⟩ :=
    (x.invariant x.events).accepted x.accepted
  obtain ⟨rfl, rfl⟩ := htriggered.unique x.triggered
  obtain rfl := hanswered.unique (fun before => (x.invariant before).engine) x.issued x.answered
  have hwf : x.asked.buffer.WellFormed := by
    obtain ⟨past, -, -, -, -, hasked, -⟩ := x.triggered
    rw [hasked]
    exact (x.invariant past).wellFormed
  obtain ⟨head', tail', htext, hsize, hline⟩ := Buffer.lineAround_start (Request.boundary_anchor hwf)
  -- both cuts are at the start of the target, which is a point
  obtain rfl : head = head' := by
    have hcut := hcuts.text
    rw [htext, List.append_assoc] at hcut
    have hlength : size head = size head' := hcuts.start.trans hsize.symm
    rw [← take_size_append head (middle ++ tail), ← hcut, hlength, take_size_append]
  have hmiddle : middle = [] := by
    have hstop : size (head ++ middle) = size head := hcuts.stop.trans hcuts.start.symm
    rw [size_append] at hstop
    exact size_eq_zero_iff.1 (by omega)
  have hcut := hcuts.text
  rw [hmiddle, List.append_nil] at hcut
  refine ⟨head, tail, hbefore.trans hcut, hafter, ?_, hline⟩
  rw [hcuts.start]
  exact (congrArg (isCodePosition · _) hbefore).trans x.inCode

/-- The code in front of the explanation stays, so only that of the explanation and of what follows counts. -/
theorem codeLexemes_eq_iff (x : Explanation reply) :
    ∃ tail, codeLexemes x.after = codeLexemes x.before ↔
      codeLexemes (shownExplanation reply ++ tail) = codeLexemes tail := by
  obtain ⟨head, tail, hbefore, hafter, hcode, rfl | ⟨y, rfl⟩⟩ := x.shape
  · exact ⟨tail, by rw [hbefore, hafter]; rfl⟩
  · refine ⟨tail, ?_⟩
    rw [hbefore, size_append] at hcode
    rw [hbefore, hafter]
    simp only [List.append_assoc, List.cons_append, List.nil_append] at hcode ⊢
    obtain ⟨ls, hls⟩ := codeLexemes_lineBreak hcode
    rw [hls, hls, List.append_cancel_left_eq]

theorem isCodePosition_zero (cs : List Char) : isCodePosition cs 0 = true := by
  rw [isCodePosition, Nat.zero_min, Bool.not_eq_true', List.any_eq_false]
  intro t _ ht
  exact Nat.not_lt_zero _ (of_decide_eq_true (Bool.and_eq_true_iff.1 ht).1)

/-- Every reply that is shown can be accepted into a text of at most one letter. -/
theorem exists_of_shown (hshown : isBlankText (asComment reply) = false) {text : List Char}
    (htext : text = [] ∨ text = ['x']) :
    ∃ x : Explanation reply, x.before = text ∧ x.after = shownExplanation reply ++ text := by
  let asked := Session.start 1 [.setText text] 30000 default
  let waiting := (asked.step (.trigger .explain 0)).2
  have hrun : asked.run [.trigger .explain 0, .respond ⟨1, 1, .ok reply⟩] =
      { waiting with engine := waiting.engine.showing 1 .explain (Request.target asked.buffer .explain) reply } :=
    Session.step_respond (s := waiting) rfl hshown
  refine ⟨{ first := asked, isNew := ⟨1, [.setText text], 30000, default, rfl⟩
            events := [.trigger .explain 0, .respond ⟨1, 1, .ok reply⟩], generation := 1, asked
            triggered := ⟨[], 0, [.respond ⟨1, 1, .ok reply⟩], _, rfl, rfl, rfl, rfl⟩
            inCode := ?_
            answered := ⟨[.trigger .explain 0], [], rfl, rfl⟩
            accepted := ?_ }, ?_, ?_⟩
  · rcases htext with rfl | rfl <;> exact isCodePosition_zero _
  · rw [hrun]
    rfl
  · rw [before, session, hrun]
    rcases htext with rfl | rfl <;> rfl
  · rw [after, session, hrun]
    rcases htext with rfl | rfl <;> rfl

/-- The shown lines are nothing but complete comments exactly if they change the code of no text. -/
theorem onlyComments_iff (reply : List Char) :
    (∀ x : Explanation reply, codeLexemes x.after = codeLexemes x.before) ↔
      OnlyComments (shownExplanation reply) := by
  rcases shownExplanation_cases reply with hnil | ⟨y, hy⟩
  · rw [hnil]
    refine iff_of_true (fun x => ?_) onlyComments_nil
    obtain ⟨tail, hiff⟩ := x.codeLexemes_eq_iff
    rw [hiff, hnil, List.nil_append]
  · rw [hy]
    constructor
    · intro hall
      have hshown : isBlankText (asComment reply) = false := by
        refine asComment_shown reply fun hnil => ?_
        rw [shownExplanation, hnil] at hy
        simp [Text.normalize] at hy
      obtain ⟨x, hbefore, hafter⟩ := exists_of_shown hshown (.inl rfl)
      obtain ⟨x', hbefore', hafter'⟩ := exists_of_shown hshown (.inr rfl)
      have hnone := hall x
      have hletter := hall x'
      rw [hbefore, hafter, List.append_nil, codeLexemes_nil, hy] at hnone
      rw [hbefore', hafter', hy, List.append_assoc] at hletter
      exact onlyComments_of_letter hnone hletter
    · intro honly x
      obtain ⟨tail, hiff⟩ := x.codeLexemes_eq_iff
      rw [hiff, hy, List.append_assoc]
      exact honly.codeLexemes_append tail

end Explanation

/-! ## Ordinary replies -/

/-- A line that needs no care: there is no CR in it, and if it begins as a comment, then this is no long one and no
vertical tab stands before it. -/
structure OrdinaryLine (line : List Char) : Prop where
  no_return : '\r' ∉ line
  not_long : ∀ level, ¬ '-' :: '-' :: opener level <+: trimStart line
  no_tab : startsWith (trimStart line) ['-', '-'] = true → '\x0b' ∉ line.takeWhile isBlank

/-- The shown form of an ordinary line is no code. -/
theorem codeLexemes_commentLine {line : List Char} (h : OrdinaryLine (trimEnd line)) (hline : '\n' ∉ line)
    (rest : List Char) : codeLexemes (commentLine line ++ '\n' :: rest) = codeLexemes rest := by
  have hfront : trimEnd line <+: line := trimEnd_prefix line
  have hkept : '\n' ∉ trimEnd line := fun hmem => hline (hfront.subset hmem)
  unfold commentLine
  dsimp only
  generalize trimEnd line = line at h hkept ⊢
  split
  · next hdashes =>
    obtain ⟨body, hbody⟩ := List.isPrefixOf_iff_prefix.1 hdashes
    have hbody : trimStart line = '-' :: '-' :: body := hbody.symm
    have hcut : line = line.takeWhile isBlank ++ '-' :: '-' :: body := by
      rw [← hbody, trimStart, List.takeWhile_append_dropWhile]
    have hgaps : ∀ c ∈ line.takeWhile isBlank, (isAsciiBlank c || !isAscii c) = true := fun c hc =>
      isGap_of_isBlank (List.mem_takeWhile_imp hc) fun htab => h.no_tab hdashes (htab ▸ hc)
    have hone : '\n' ∉ body := fun hmem => hkept (hcut ▸ by simp [hmem])
    have hshort : ∀ level, ¬ opener level <+: body := fun level hopener => by
      refine h.not_long level ?_
      rw [hbody]
      exact List.cons_prefix_cons.2 ⟨rfl, List.cons_prefix_cons.2 ⟨rfl, hopener⟩⟩
    rw [hcut, List.append_assoc, codeLexemes_gaps hgaps, List.cons_append, List.cons_append,
      codeLexemes_lineComment hone hshort]
  · split
    · have hempty : ∀ level, ¬ opener level <+: [] := by simp [opener]
      exact codeLexemes_lineComment List.not_mem_nil hempty rest
    · have hspace : ∀ level, ¬ opener level <+: ' ' :: line := by simp [opener]
      exact codeLexemes_lineComment (by simpa using hkept) hspace rest

/-- Ordinary lines are shown as they are put into the buffer. -/
theorem shownExplanation_of_ordinary {reply : List Char}
    (h : ∀ line ∈ lines (trim reply), OrdinaryLine (trimEnd line)) : shownExplanation reply = asComment reply := by
  refine normalize_of_not_mem fun hmem => ?_
  obtain ⟨line, hline, hmem⟩ := List.mem_flatMap.1 hmem
  have hreturn := (h line hline).no_return
  unfold commentLine at hmem
  dsimp only at hmem
  split at hmem
  · simp [hreturn] at hmem
  · split at hmem <;> simp [hreturn] at hmem

/-- An explanation of ordinary lines is shown as nothing but complete comments. -/
theorem onlyComments_of_ordinary {reply : List Char}
    (h : ∀ line ∈ lines (trim reply), OrdinaryLine (trimEnd line)) : OnlyComments (shownExplanation reply) := by
  have hlines (rest : List Char) : codeLexemes (shownExplanation reply ++ rest) = codeLexemes rest := by
    rw [shownExplanation_of_ordinary h, asComment]
    have hplain : ∀ line ∈ lines (trim reply), OrdinaryLine (trimEnd line) ∧ '\n' ∉ line :=
      fun line hline => ⟨h line hline, lineFeed_not_mem_lines hline⟩
    generalize lines (trim reply) = ls at hplain
    induction ls with
    | nil => rfl
    | cons line ls ih =>
      obtain ⟨hordinary, hone⟩ := hplain line List.mem_cons_self
      rw [List.flatMap_cons, List.append_assoc, List.append_assoc, List.singleton_append,
        codeLexemes_commentLine hordinary hone, ih fun line hline => hplain line (List.mem_cons_of_mem _ hline)]
  rcases shownExplanation_cases reply with hnil | ⟨y, hy⟩
  · rw [hnil]
    exact onlyComments_nil
  · rw [hy] at hlines ⊢
    refine onlyComments_of_letter ?_ ?_
    · rw [← List.append_nil (y ++ _), hlines, codeLexemes_nil]
    · rw [← hlines ['x'], List.append_assoc]
      rfl

/-! ## Explanations and code -/

/-- An accepted explanation leaves the code of every text alone exactly if it is shown as nothing but complete
comments; so it is if its lines are ordinary. -/
theorem explanation_adds_comments (reply : List Char) :
    ((∀ x : Explanation reply, codeLexemes x.after = codeLexemes x.before) ↔
        OnlyComments (shownExplanation reply)) ∧
      ((∀ line ∈ lines (trim reply), OrdinaryLine (trimEnd line)) → OnlyComments (shownExplanation reply)) :=
  ⟨Explanation.onlyComments_iff reply, onlyComments_of_ordinary⟩

/-- A comment among the lines stays as it is. -/
theorem explanation_adds_comments_plain :
    ∃ x : Explanation "adds one\n  -- and stops".toList,
      x.before = ['x'] ∧ x.after = "-- adds one\n  -- and stops\nx".toList ∧
        codeLexemes x.after = codeLexemes x.before := by
  have hlines : lines (trim "adds one\n  -- and stops".toList) =
      ["adds one".toList, "  -- and stops".toList] := rfl
  have hordinary : ∀ line ∈ lines (trim "adds one\n  -- and stops".toList), OrdinaryLine (trimEnd line) := by
    rw [hlines]
    intro line hline
    simp only [List.mem_cons, List.not_mem_nil, or_false] at hline
    rcases hline with rfl | rfl
    · exact ⟨by decide, fun level => by simp [trimStart, trimEnd, isBlank], by decide⟩
    · exact ⟨by decide, fun level => by simp [trimStart, trimEnd, isBlank, opener], by decide⟩
  have hshown : isBlankText (asComment "adds one\n  -- and stops".toList) = false := rfl
  obtain ⟨x, hbefore, hafter⟩ := Explanation.exists_of_shown hshown (.inr rfl)
  obtain ⟨hiff, honly⟩ := explanation_adds_comments "adds one\n  -- and stops".toList
  exact ⟨x, hbefore, hafter, hiff.2 (honly hordinary) x⟩

/-- Three replies that are no ordinary ones: a CR in a line begins code, a long comment takes the code behind it, and
a vertical tab before a comment is code. -/
theorem explanation_adds_code :
    (∃ x : Explanation "adds one\rprint(2)".toList, codeLexemes x.after ≠ codeLexemes x.before) ∧
    (∃ x : Explanation "--[[ adds one".toList, codeLexemes x.after ≠ codeLexemes x.before) ∧
    ∃ x : Explanation "adds one\n\x0b-- more".toList, codeLexemes x.after ≠ codeLexemes x.before := by
  have hone : '\n' ∉ " adds one".toList := by decide
  have hshort : ∀ level, ¬ opener level <+: " adds one".toList := by simp [opener]
  have behind {cs : List Char} (hcs : codeLexemes cs ≠ []) :
      codeLexemes ("-- adds one\n".toList ++ cs) ≠ codeLexemes [] := by
    rw [codeLexemes_nil]
    exact (codeLexemes_lineComment hone hshort cs).trans_ne hcs
  refine ⟨?_, ?_, ?_⟩
  · have hshown : isBlankText (asComment "adds one\rprint(2)".toList) = false := rfl
    have hname : lexemeLength? "print(2)\n".toList = some (.name, 5) := by decide
    obtain ⟨x, hbefore, hafter⟩ := Explanation.exists_of_shown hshown (.inl rfl)
    refine ⟨x, ?_⟩
    rw [hbefore, hafter]
    exact behind (codeLexemes_ne_nil hname (by decide))
  · have hshown : isBlankText (asComment "--[[ adds one".toList) = false := rfl
    have hlong : lexemeLength? "--[[ adds one\nx".toList = some (.comment, 15) := by decide
    have hname : lexemeLength? ['x'] = some (.name, 1) := by decide
    have hnone : codeLexemes "--[[ adds one\nx".toList = [] := (codeLexemes_cons hlong).trans codeLexemes_nil
    obtain ⟨x, hbefore, hafter⟩ := Explanation.exists_of_shown hshown (.inr rfl)
    refine ⟨x, ?_⟩
    rw [hbefore, hafter]
    exact hnone.trans_ne (codeLexemes_ne_nil hname (by decide)).symm
  · have hshown : isBlankText (asComment "adds one\n\x0b-- more".toList) = false := rfl
    have htab : lexemeLength? "\x0b-- more\n".toList = some (.symbol, 1) := by decide
    obtain ⟨x, hbefore, hafter⟩ := Explanation.exists_of_shown hshown (.inl rfl)
    refine ⟨x, ?_⟩
    rw [hbefore, hafter]
    exact behind (codeLexemes_ne_nil htab (by decide))

end Scriptorium.Assist
