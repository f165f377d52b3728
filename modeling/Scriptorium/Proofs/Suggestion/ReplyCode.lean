import Scriptorium.Assist.Chat
import Scriptorium.Proofs.Text.FirstPlace
import Scriptorium.Proofs.Text.Runs
import Scriptorium.Proofs.Text.Trim

/-!
# The code in a reply

A server answers with code alone, or with code in a fenced block and chatter around it. `cleanReply` gives the content
of the first fenced block without the line ends in front of it and the blanks behind it. What it gives is code alone,
so that cleaning it again changes nothing (`cleanReply_stable`).
-/

namespace Scriptorium.Assist

open Text

variable {before info code after content s : List Char}

/-! ## Fences -/

theorem fence_append_comm {ticks : List Char} (h : ∀ c ∈ ticks, c = '`') : ticks ++ fence = fence ++ ticks := by
  obtain ⟨n, rfl⟩ : ∃ n, ticks = List.replicate n '`' := ⟨_, List.eq_replicate_of_mem h⟩
  have hfence : fence = List.replicate 3 '`' := rfl
  rw [hfence, List.replicate_append_replicate, List.replicate_append_replicate, Nat.add_comm]

/-- The first fence of a text is the one that is written, or it begins at backticks in front of that one. As many then
stand behind it. -/
theorem exists_splitOnce_fence (h : ¬ fence <:+: before) (rest : List Char) :
    ∃ front ticks, splitOnce fence (before ++ fence ++ rest) = some (front, ticks ++ rest) ∧ ∀ c ∈ ticks, c = '`' := by
  obtain ⟨⟨front, back⟩, hsplit⟩ : ∃ parts, splitOnce fence (before ++ fence ++ rest) = some parts := by
    rw [← Option.ne_none_iff_exists', Ne, splitOnce_eq_none_iff, not_not]
    exact ⟨before, rest, rfl⟩
  obtain ⟨hplace, hfirst⟩ := splitOnce_eq_some_iff.1 hsplit
  obtain ⟨ticks, rfl, hback⟩ := hfirst.exists_append hplace
  have hticks : ticks <+: fence ++ back := hback ▸ (List.prefix_append _ _).trans (List.prefix_append _ _)
  -- were there three backticks, they would be a fence of their own
  have hshort : ticks.length ≤ fence.length := by
    by_contra hlong
    have hfence := List.prefix_of_prefix_length_le (List.prefix_append fence back) hticks (by omega)
    exact h (hfence.isInfix.trans (List.suffix_append front ticks).isInfix)
  have hpart : ticks <+: fence := List.prefix_of_prefix_length_le hticks (List.prefix_append fence back) hshort
  have hall : ∀ c ∈ ticks, c = '`' := fun c hc => List.eq_of_mem_replicate (n := 3) (hpart.subset hc)
  rw [fence_append_comm hall, List.append_assoc, List.append_cancel_left_eq] at hback
  exact ⟨front, ticks, by rw [hsplit, hback], hall⟩

/-! ## The fenced body -/

theorem below_info (h : '\n' ∉ info) (rest : List Char) :
    ((info ++ '\n' :: rest).dropWhile (· != '\n')).drop 1 = rest := by
  have hinfo : ∀ c ∈ info, (c != '\n') = true := by
    rintro c hc
    rw [bne_iff_ne]
    rintro rfl
    exact h hc
  rw [dropWhile_of_head? hinfo (by simp)]
  rfl

theorem fencedBody_fenced (hbefore : ¬ fence <:+: before) (hinfo : '\n' ∉ info) (hcode : FirstBehind code fence)
    (after : List Char) : fencedBody (before ++ fence ++ info ++ '\n' :: (code ++ fence ++ after)) = code := by
  obtain ⟨front, ticks, hsplit, hticks⟩ := exists_splitOnce_fence hbefore (info ++ '\n' :: (code ++ fence ++ after))
  have hline : '\n' ∉ ticks ++ info := by
    rw [List.mem_append, not_or]
    exact ⟨fun hmem => absurd (hticks _ hmem) (by decide), hinfo⟩
  rw [← List.append_assoc] at hsplit
  rw [fencedBody, hsplit]
  dsimp only
  rw [← List.append_assoc, below_info hline, splitOnce_append hcode]

theorem fencedBody_of_unfenced (h : ¬ fence <:+: s) : fencedBody s = s := by
  rw [fencedBody, splitOnce_eq_none_iff.2 h]

/-- The body of a text is a part of it and has no fence in it. -/
theorem fencedBody_part (content : List Char) : fencedBody content <:+: content ∧ ¬ fence <:+: fencedBody content := by
  unfold fencedBody
  cases hopen : splitOnce fence content with
  | none => exact ⟨List.infix_refl _, splitOnce_eq_none_iff.1 hopen⟩
  | some parts =>
    obtain ⟨front, behind⟩ := parts
    obtain ⟨rfl, -⟩ := splitOnce_eq_some_iff.1 hopen
    have hbelow : (behind.dropWhile (· != '\n')).drop 1 <:+: front ++ fence ++ behind :=
      (((List.drop_suffix 1 _).trans (List.dropWhile_suffix _)).trans (List.suffix_append _ _)).isInfix
    dsimp only
    cases hclose : splitOnce fence ((behind.dropWhile (· != '\n')).drop 1) with
    | none => exact ⟨hbelow, splitOnce_eq_none_iff.1 hclose⟩
    | some parts =>
      obtain ⟨body, rest⟩ := parts
      obtain ⟨hcut, hfirst⟩ := splitOnce_eq_some_iff.1 hclose
      have hbody : body <:+: (behind.dropWhile (· != '\n')).drop 1 :=
        hcut ▸ ((List.prefix_append body fence).trans (List.prefix_append _ rest)).isInfix
      exact ⟨hbody.trans hbelow, hfirst.not_within (by decide)⟩

/-! ## Line ends in front and blanks behind -/

/-- Code without the line ends in front of it and the blanks behind it. -/
structure Stripped (code s : List Char) : Prop where
  cut : ∃ front back, code = front ++ s ++ back ∧ (∀ c ∈ front, c = '\n') ∧ isBlankText back = true
  head : ∀ c ∈ s.head?, c ≠ '\n'
  last : ∀ c ∈ s.getLast?, isBlank c = false

/-- What `cleanReply` makes of the body of a reply. -/
def strip (body : List Char) : List Char := trimEnd (body.dropWhile (· == '\n'))

theorem stripped_strip (code : List Char) : Stripped code (strip code) where
  cut := by
    obtain ⟨back, hback, hblank⟩ := exists_trimEnd_append (code.dropWhile (· == '\n'))
    refine ⟨code.takeWhile (· == '\n'), back, ?_, fun c hc => ?_, hblank⟩
    · rw [List.append_assoc, strip, ← hback, List.takeWhile_append_dropWhile]
    · simpa using List.mem_takeWhile_imp hc
  head := by
    intro c hc
    obtain ⟨rest, hrest⟩ := List.head?_eq_some_iff.1 hc
    obtain ⟨back, hback, -⟩ := exists_trimEnd_append (code.dropWhile (· == '\n'))
    have hfirst := List.head?_dropWhile_not (· == '\n') code
    rw [strip] at hrest
    rw [hback, hrest] at hfirst
    simpa using hfirst
  last := getLast?_trimEnd _

theorem Stripped.part (h : Stripped code s) : s <:+: code := by
  obtain ⟨front, back, rfl, -, -⟩ := h.cut
  exact ⟨front, back, rfl⟩

theorem Stripped.isBlankText (h : Stripped code s) : isBlankText s = isBlankText code := by
  obtain ⟨front, back, rfl, hfront, hback⟩ := h.cut
  have hblank : Text.isBlankText front = true := by
    rw [Text.isBlankText, List.all_eq_true]
    intro c hc
    rw [hfront c hc]
    rfl
  rw [isBlankText_append, isBlankText_append, hblank, hback, Bool.true_and, Bool.and_true]

/-- Stripped code is left as it is. -/
theorem Stripped.strip_eq (h : Stripped code s) : strip s = s := by
  have hdrop : s.dropWhile (· == '\n') = s := by
    cases s with
    | nil => rfl
    | cons c s => exact List.dropWhile_cons_of_neg (by simpa using h.head c rfl)
  rw [strip, hdrop]
  exact List.rdropWhile_eq_self_iff.2 fun hne => by
    rw [h.last _ (List.getLast?_eq_some_getLast hne)]
    exact Bool.false_ne_true

/-! ## Cleaning -/

theorem cleanReply_eq (content : List Char) :
    cleanReply content =
      if isBlankText (fencedBody content) then
        .error (.invalidResponse ("no code in reply: " ++ String.ofList content))
      else .ok (strip (fencedBody content)) := by
  have hempty : (strip (fencedBody content)).isEmpty = isBlankText (fencedBody content) := by
    rw [← (stripped_strip (fencedBody content)).isBlankText, Bool.eq_iff_iff, List.isEmpty_iff, strip,
      isBlankText_trimEnd, trimEnd_eq_nil_iff]
  rw [cleanReply, ← hempty]
  rfl

theorem cleanReply_eq_ok_iff :
    cleanReply content = .ok s ↔ isBlankText (fencedBody content) = false ∧ strip (fencedBody content) = s := by
  rw [cleanReply_eq]
  cases isBlankText (fencedBody content) <;> simp

/-- A reply with code in a fenced block, which has no fence in front of it and ends at the next one, gives that code
stripped, or an error if the code is blank. Whatever the reply is, what comes of it is a part of it that is not blank
and has no fence, no line end in front and no blank behind; and cleaned again it stays as it is. -/
theorem cleanReply_stable :
    (∀ before info code after : List Char, ¬ fence <:+: before → '\n' ∉ info → FirstBehind code fence →
      let reply := before ++ fence ++ info ++ '\n' :: (code ++ fence ++ after)
      (isBlankText code = false → ∃ s, cleanReply reply = .ok s ∧ Stripped code s) ∧
      (isBlankText code = true →
        cleanReply reply = .error (.invalidResponse ("no code in reply: " ++ String.ofList reply)))) ∧
    ∀ content s : List Char, cleanReply content = .ok s →
      s <:+: content ∧ isBlankText s = false ∧ ¬ fence <:+: s ∧ (∀ c ∈ s.head?, c ≠ '\n') ∧
        (∀ c ∈ s.getLast?, isBlank c = false) ∧ cleanReply s = .ok s := by
  constructor
  · intro before info code after hbefore hinfo hcode reply
    have hbody : fencedBody reply = code := fencedBody_fenced hbefore hinfo hcode after
    rw [cleanReply_eq, hbody]
    constructor
    · intro hblank
      exact ⟨strip code, by rw [hblank]; rfl, stripped_strip code⟩
    · intro hblank
      rw [hblank]
      rfl
  · intro content s h
    obtain ⟨hblank, rfl⟩ := cleanReply_eq_ok_iff.1 h
    obtain ⟨hpart, hfence⟩ := fencedBody_part content
    have hstripped := stripped_strip (fencedBody content)
    have hnot : ¬ fence <:+: strip (fencedBody content) := fun hin => hfence (hin.trans hstripped.part)
    have hself : fencedBody (strip (fencedBody content)) = strip (fencedBody content) := fencedBody_of_unfenced hnot
    have hblank' : isBlankText (strip (fencedBody content)) = false := hstripped.isBlankText.trans hblank
    refine ⟨hstripped.part.trans hpart, hblank', hnot, hstripped.head, hstripped.last, ?_⟩
    rw [cleanReply_eq_ok_iff, hself]
    exact ⟨hblank', hstripped.strip_eq⟩

/-- A reply with chatter on both sides, a backtick right before the opening fence and another block behind. -/
theorem cleanReply_stable_chatter :
    let reply := "Hi: ````lua\n\n x = 1 \n```\nor ```\ny\n```".toList
    (∃ s, cleanReply reply = .ok s ∧ Stripped "\n x = 1 \n".toList s) ∧ cleanReply reply = .ok " x = 1".toList ∧
      cleanReply " x = 1".toList = .ok " x = 1".toList := by
  intro reply
  have hsplit : splitOnce fence ("\n x = 1 \n".toList ++ fence) = some ("\n x = 1 \n".toList, []) := by decide
  have hfenced := (cleanReply_stable.1 "Hi: `".toList "lua".toList "\n x = 1 \n".toList "\nor ```\ny\n```".toList
    (by decide) (by decide) (splitOnce_eq_some_iff.1 hsplit).2).1 (by decide)
  have hclean : cleanReply reply = .ok " x = 1".toList := rfl
  obtain ⟨-, -, -, -, -, hagain⟩ := cleanReply_stable.2 reply " x = 1".toList hclean
  exact ⟨hfenced, hclean, hagain⟩

end Scriptorium.Assist
