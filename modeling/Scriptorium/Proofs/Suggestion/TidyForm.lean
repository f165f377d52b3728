import Mathlib.Data.List.Destutter
import Scriptorium.Proofs.Suggestion.OfflineReplies

/-!
# The form of tidied code

Tidied code has the lines of the code without the blanks at their ends, and of each run of empty lines the first
(`tidyLines_eq_destutter`); so it is tidy (`IsTidy`), and has the lines with text that the code had. Cut into its lines
again it gives the same lines, except that an empty line at the end is lost (`lines_join`). Code with text above a blank
last line is therefore changed by the second pass too, and only such code (`tidy_form`).
-/

namespace Scriptorium.Assist

open Text

variable {line next code : List Char} {ls : List (List Char)}

/-! ## Tidy code -/

/-- No line ends in a blank, and no two lines that follow each other are blank. -/
structure IsTidy (cs : List Char) : Prop where
  trimmed : ∀ line ∈ splitOn '\n' cs, ∀ c ∈ line.getLast?, isBlank c = false
  apart : (splitOn '\n' cs).IsChain fun line next => ¬ (isBlankText line = true ∧ isBlankText next = true)

/-- The lines with text. -/
def textLines (cs : List Char) : List (List Char) := (lines cs).filter (!isBlankText ·)

/-- The code has text, and its last line is blank. -/
def TrailsOff (code : List Char) : Prop :=
  isBlankText code = false ∧ ∃ last, (lines code).getLast? = some last ∧ isBlankText last = true

/-! ## Lines that are apart -/

/-- The lines can follow each other: they are not both empty. -/
def Apart (line next : List Char) : Prop := line ≠ [] ∨ next ≠ []

instance : DecidableRel Apart := fun _ _ => inferInstanceAs (Decidable (_ ∨ _))

theorem not_apart_iff : ¬ Apart line next ↔ line = [] ∧ next = [] := by
  rw [Apart, not_or, not_not, not_not]

theorem destutter'_map_trimEnd (line : List Char) (ls : List (List Char)) :
    (ls.map trimEnd).destutter' Apart line = line :: tidyLines line.isEmpty ls := by
  induction ls generalizing line with
  | nil => rfl
  | cons next ls ih =>
    rw [List.map_cons, tidyLines]
    by_cases hapart : Apart line (trimEnd next)
    · have hkept : ¬ ((trimEnd next).isEmpty && line.isEmpty) = true := by
        rw [Bool.and_eq_true, List.isEmpty_iff, List.isEmpty_iff, and_comm, ← not_apart_iff, not_not]
        exact hapart
      rw [List.destutter'_cons_pos _ hapart, ih, if_neg hkept]
    · obtain ⟨rfl, hnext⟩ := not_apart_iff.1 hapart
      rw [List.destutter'_cons_neg _ hapart, ih, hnext]
      rfl

/-- Of the lines without blanks at their ends, those are kept that do not follow an empty one as an empty one. -/
theorem tidyLines_eq_destutter (ls : List (List Char)) : tidyLines false ls = (ls.map trimEnd).destutter Apart := by
  cases ls with
  | nil => rfl
  | cons line ls => rw [List.map_cons, List.destutter_cons', destutter'_map_trimEnd, tidyLines, Bool.and_false]; rfl

/-- A line that is left out is like the one before it, so the last line is still there. -/
theorem getLast?_destutter' (line : List Char) (ls : List (List Char)) :
    (ls.destutter' Apart line).getLast? = (line :: ls).getLast? := by
  induction ls generalizing line with
  | nil => rfl
  | cons next ls ih =>
    by_cases hapart : Apart line next
    · rw [List.destutter'_cons_pos _ hapart, List.getLast?_cons, ih, List.getLast?_cons, List.getLast?_cons_cons,
        List.getLast?_cons]
      rfl
    · obtain ⟨rfl, rfl⟩ := not_apart_iff.1 hapart
      rw [List.destutter'_cons_neg _ hapart, ih, List.getLast?_cons_cons]

theorem getLast?_tidyLines (ls : List (List Char)) : (tidyLines false ls).getLast? = ls.getLast?.map trimEnd := by
  rw [tidyLines_eq_destutter, ← List.getLast?_map]
  cases ls.map trimEnd with
  | nil => rfl
  | cons line ls => exact getLast?_destutter' line ls

/-! ## Tidied lines -/

/-- The lines neither hold line ends nor end in blanks, and no two that follow each other are empty. -/
structure TidiedLines (ls : List (List Char)) : Prop where
  lineFeed : ∀ line ∈ ls, '\n' ∉ line
  trimmed : ∀ line ∈ ls, ∀ c ∈ line.getLast?, isBlank c = false
  apart : ls.IsChain Apart

theorem trimEnd_of_getLast? (h : ∀ c ∈ line.getLast?, isBlank c = false) : trimEnd line = line := by
  refine List.rdropWhile_eq_self_iff.2 fun hne => ?_
  rw [h _ (List.getLast_mem_getLast? hne)]
  exact Bool.false_ne_true

theorem isBlankText_of_getLast? (h : ∀ c ∈ line.getLast?, isBlank c = false) : isBlankText line = true ↔ line = [] := by
  rw [← trimEnd_eq_nil_iff, trimEnd_of_getLast? h]

theorem dropFinalCR_of_getLast? (h : ∀ c ∈ line.getLast?, isBlank c = false) : dropFinalCR line = line := by
  unfold dropFinalCR
  split
  · next hlast => cases h _ hlast
  · rfl

theorem tidiedLines (code : List Char) : TidiedLines (tidyLines false (lines code)) := by
  have hmem {line : List Char} (h : line ∈ tidyLines false (lines code)) : ∃ raw ∈ lines code, trimEnd raw = line := by
    rw [tidyLines_eq_destutter] at h
    exact List.mem_map.1 ((List.destutter_sublist _ _).subset h)
  refine ⟨fun line h => ?_, fun line h => ?_, ?_⟩
  · obtain ⟨raw, hraw, rfl⟩ := hmem h
    have hfront : trimEnd raw <+: raw := trimEnd_prefix raw
    exact fun hlineFeed => lineFeed_not_mem_lines hraw (hfront.subset hlineFeed)
  · obtain ⟨raw, -, rfl⟩ := hmem h
    exact getLast?_trimEnd raw
  · rw [tidyLines_eq_destutter]
    exact List.isChain_destutter _ _

namespace TidiedLines

theorem dropLast (h : TidiedLines ls) : TidiedLines ls.dropLast where
  lineFeed line hline := h.lineFeed line (List.dropLast_subset ls hline)
  trimmed line hline := h.trimmed line (List.dropLast_subset ls hline)
  apart := h.apart.dropLast

/-- Such lines are tidied already. -/
theorem tidyLines_eq (h : TidiedLines ls) : tidyLines false ls = ls := by
  have htrimmed : ls.map trimEnd = ls :=
    List.map_congr_left (fun line hline => trimEnd_of_getLast? (h.trimmed line hline)) |>.trans ls.map_id
  rw [tidyLines_eq_destutter, htrimmed, List.destutter_of_isChain _ _ h.apart]

theorem lines_join (h : TidiedLines ls) :
    lines (join ['\n'] ls) = if ls.getLast? = some [] then ls.dropLast else ls :=
  Text.lines_join fun line hline => ⟨h.lineFeed line hline, dropFinalCR_of_getLast? (h.trimmed line hline)⟩

theorem isTidy (h : TidiedLines ls) : IsTidy (join ['\n'] ls) := by
  by_cases hls : ls = []
  · subst hls
    exact ⟨by simp [join, splitOn], by simp [join, splitOn]⟩
  · have hsplit : splitOn '\n' (join ['\n'] ls) = ls := splitOn_join hls h.lineFeed
    refine ⟨fun line hline => h.trimmed line (hsplit ▸ hline), ?_⟩
    rw [hsplit]
    refine h.apart.imp_of_mem_imp fun line next hline hnext hapart hblank => ?_
    exact not_apart_iff.2 ⟨(isBlankText_of_getLast? (h.trimmed line hline)).1 hblank.1,
      (isBlankText_of_getLast? (h.trimmed next hnext)).1 hblank.2⟩ hapart

/-- Above an empty last line there is none, or one with text. -/
theorem getLast?_front {front : List (List Char)} (h : TidiedLines (front ++ [[]])) : front.getLast? ≠ some [] := by
  intro hlast
  rcases (List.isChain_append.1 h.apart).2.2 [] hlast [] rfl with hne | hne <;> exact hne rfl

end TidiedLines

/-! ## Lines with text -/

theorem filter_tidyLines (b : Bool) (ls : List (List Char)) :
    (tidyLines b ls).filter (!isBlankText ·) = (ls.filter (!isBlankText ·)).map trimEnd := by
  induction ls generalizing b with
  | nil => rfl
  | cons line ls ih =>
    cases hline : isBlankText line with
    | true =>
      rw [tidyLines_blank hline, List.filter_append, ih, List.filter_cons_of_neg (by simp [hline])]
      cases b <;> rfl
    | false =>
      rw [tidyLines_text hline, List.filter_cons_of_pos (by simp [hline]), ih,
        List.filter_cons_of_pos (by simp [hline]), List.map_cons]

theorem lines_tidy (code : List Char) :
    let ls := tidyLines false (lines code)
    lines (tidy code) = if ls.getLast? = some [] then ls.dropLast else ls :=
  (tidiedLines code).lines_join

theorem textLines_tidy (code : List Char) : textLines (tidy code) = (textLines code).map trimEnd := by
  rw [textLines, textLines, ← filter_tidyLines false, lines_tidy]
  split
  · next hlast =>
    obtain ⟨front, hfront⟩ := List.getLast?_eq_some_iff.1 hlast
    rw [hfront, List.dropLast_concat, List.filter_append]
    exact (List.append_nil _).symm
  · rfl

/-! ## Passes -/

/-- Code with text trails off if an empty line ends what it is tidied to. -/
theorem trailsOff_iff : TrailsOff code ↔ ∃ front, front ≠ [] ∧ tidyLines false (lines code) = front ++ [[]] := by
  have hlast : (tidyLines false (lines code)).getLast? = some [] ↔
      ∃ last, (lines code).getLast? = some last ∧ isBlankText last = true := by
    simp only [getLast?_tidyLines, Option.map_eq_some_iff, trimEnd_eq_nil_iff]
  have hblank : (tidyLines false (lines code)).all isBlankText = isBlankText code := by
    rw [all_isBlankText_tidyLines, all_isBlankText_lines]
  rw [TrailsOff, ← hlast, ← hblank]
  constructor
  · rintro ⟨htext, hlast⟩
    obtain ⟨front, hfront⟩ := List.getLast?_eq_some_iff.1 hlast
    refine ⟨front, ?_, hfront⟩
    rintro rfl
    rw [hfront] at htext
    cases htext
  · rintro ⟨front, hne, hfront⟩
    have htidied : TidiedLines (front ++ [[]]) := hfront ▸ tidiedLines code
    obtain ⟨above, line, rfl⟩ := (List.eq_nil_or_concat' front).resolve_left hne
    have hline : line ≠ [] := fun hnil => htidied.getLast?_front (by rw [hnil, List.getLast?_concat])
    have htext : isBlankText line ≠ true := mt (isBlankText_of_getLast? (htidied.trimmed line (by simp))).1 hline
    rw [hfront]
    exact ⟨List.all_eq_false.2 ⟨line, by simp, htext⟩, List.getLast?_concat⟩

theorem TrailsOff.tidy_eq (h : TrailsOff code) : tidy code = tidy (tidy code) ++ ['\n'] := by
  obtain ⟨front, hne, hfront⟩ := trailsOff_iff.1 h
  have hlines : lines (tidy code) = front := by
    rw [lines_tidy, hfront, if_pos List.getLast?_concat, List.dropLast_concat]
  have hfrontTidied : tidyLines false front = front := by
    have htidied := (tidiedLines code).dropLast
    rw [hfront, List.dropLast_concat] at htidied
    exact htidied.tidyLines_eq
  have htwice : tidy (tidy code) = join ['\n'] front := by rw [tidy, hlines, hfrontTidied]
  rw [htwice, tidy, hfront, join_concat '\n' hne]

theorem tidy_tidy (h : ¬ TrailsOff code) : tidy (tidy code) = tidy code := by
  by_cases hlast : (tidyLines false (lines code)).getLast? = some []
  · obtain ⟨front, hfront⟩ := List.getLast?_eq_some_iff.1 hlast
    obtain rfl : front = [] := by
      by_contra hne
      exact h (trailsOff_iff.2 ⟨front, hne, hfront⟩)
    have hempty : tidy code = [] := congrArg (join ['\n']) hfront
    rw [hempty]
    rfl
  · have hlines : lines (tidy code) = tidyLines false (lines code) := by rw [lines_tidy, if_neg hlast]
    rw [tidy, hlines, (tidiedLines code).tidyLines_eq]
    rfl

theorem not_trailsOff_tidy (code : List Char) : ¬ TrailsOff (tidy code) := by
  rintro ⟨-, last, hlast, hblank⟩
  have htidied := tidiedLines code
  rw [lines_tidy] at hlast
  split at hlast
  · next hempty =>
    obtain ⟨front, hfront⟩ := List.getLast?_eq_some_iff.1 hempty
    rw [hfront] at htidied hlast
    rw [List.dropLast_concat] at hlast
    have hline := htidied.trimmed last (List.mem_append_left _ (List.mem_of_getLast? hlast))
    obtain rfl := (isBlankText_of_getLast? hline).1 hblank
    exact htidied.getLast?_front hlast
  · next hempty =>
    have hline := htidied.trimmed last (List.mem_of_getLast? hlast)
    obtain rfl := (isBlankText_of_getLast? hline).1 hblank
    exact hempty hlast

/-- Tidied code is tidy and has the lines with text of the code, without the blanks at their ends, in order. Tidying twice
is the same as tidying once exactly where the code is blank or does not end in a blank line; else the first pass leaves
a line end at the end of the code, which the second takes off. A third pass changes nothing more. -/
theorem tidy_form (code : List Char) :
    IsTidy (tidy code) ∧ textLines (tidy code) = (textLines code).map trimEnd ∧
      (tidy (tidy code) = tidy code ↔ ¬ TrailsOff code) ∧
      (tidy code = tidy (tidy code) ++ ['\n'] ↔ TrailsOff code) ∧
      tidy (tidy (tidy code)) = tidy (tidy code) := by
  refine ⟨(tidiedLines code).isTidy, textLines_tidy code, ?_, ?_, tidy_tidy (not_trailsOff_tidy code)⟩
  · refine ⟨fun htwice htrails => ?_, tidy_tidy⟩
    have hlength := congrArg List.length (htrails.tidy_eq)
    rw [htwice, List.length_append, List.length_singleton] at hlength
    omega
  · refine ⟨fun htwice => ?_, TrailsOff.tidy_eq⟩
    by_contra htrails
    have hlength := congrArg List.length htwice
    rw [tidy_tidy htrails, List.length_append, List.length_singleton] at hlength
    omega

/-- One blank line at the end is kept as a line end, which is lost when the code is tidied again. -/
theorem tidy_tidy_ne : tidy (tidy ['a', '\n', '\n']) ≠ tidy ['a', '\n', '\n'] := by decide

end Scriptorium.Assist
