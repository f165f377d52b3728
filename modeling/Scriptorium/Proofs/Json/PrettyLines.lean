import Scriptorium.Proofs.Json.PrettyRoundTrip

/-!
# The lines of a written value

A value is written on lines that begin with blanks and then a character that is neither a blank nor a slash
(`Exact.tidy`). Line ends inside strings are escaped, so no string can begin a line.
-/

namespace Scriptorium.Json

open Text

variable {cs ds : List Char} {c : Char} {level : Nat} {v : Json}

/-- The text begins with a character that is no blank and begins no comment. -/
def BeginsLine (cs : List Char) : Prop := ∃ c tail, cs = c :: tail ∧ isBlank c = false ∧ c ≠ '/'

theorem BeginsLine.append (h : BeginsLine cs) (ds : List Char) : BeginsLine (cs ++ ds) := by
  obtain ⟨c, tail, rfl, hblank, hslash⟩ := h
  exact ⟨c, tail ++ ds, rfl, hblank, hslash⟩

theorem Exact.beginsLine (h : Exact v) (level : Nat) : BeginsLine (pretty level v) := by
  obtain ⟨c, tail, hhead, hblank, -, hslash⟩ := h.exists_pretty_eq_cons level
  exact ⟨c, tail, hhead, hblank, hslash⟩

/-- No CR, and after every LF blanks and what may begin a line. -/
structure Tidy (cs : List Char) : Prop where
  no_return : '\r' ∉ cs
  indented : ∀ before after, cs = before ++ '\n' :: after →
    ∃ n tail, after = List.replicate n ' ' ++ tail ∧ BeginsLine tail

namespace Tidy

theorem of_not_mem (hline : '\n' ∉ cs) (hreturn : '\r' ∉ cs) : Tidy cs where
  no_return := hreturn
  indented before after h := absurd (by simp [h]) hline

/-- A text that is seen to hold no line end. -/
theorem of_all (h : cs.all (fun c => c != '\n' && c != '\r') = true) : Tidy cs := by
  simp only [List.all_eq_true, Bool.and_eq_true, bne_iff_ne] at h
  exact of_not_mem (fun hc => (h _ hc).1 rfl) (fun hc => (h _ hc).2 rfl)

theorem append (h : Tidy cs) (h' : Tidy ds) : Tidy (cs ++ ds) where
  no_return hmem := (List.mem_append.1 hmem).elim h.no_return h'.no_return
  indented before after heq := by
    rcases List.append_eq_append_iff.1 heq with ⟨mid, rfl, hds⟩ | ⟨mid, hcs, hafter⟩
    · exact h'.indented mid after hds
    · cases mid with
      | nil => exact h'.indented [] after (by simpa using hafter.symm)
      | cons x mid =>
        obtain ⟨rfl, rfl⟩ := List.cons.inj hafter
        obtain ⟨n, tail, rfl, htail⟩ := h.indented before mid hcs
        exact ⟨n, tail ++ ds, by simp, htail.append ds⟩

/-- A new line in front of a text that may begin a line. -/
theorem newLine (h : Tidy cs) (hbegins : BeginsLine cs) (level : Nat) : Tidy (newLine level ++ cs) := by
  have hindent : Tidy (indent level) := of_not_mem (by simp [indent]) (by simp [indent])
  have hrest := hindent.append h
  refine ⟨?_, fun before after heq => ?_⟩
  · rw [Json.newLine, List.cons_append, List.mem_cons, not_or]
    exact ⟨by decide, hrest.no_return⟩
  · cases before with
    | nil =>
      obtain ⟨-, rfl⟩ := List.cons.inj heq
      exact ⟨2 * level, cs, rfl, hbegins⟩
    | cons x before => exact hrest.indented before after (List.cons.inj heq).2

theorem getLast?_ne (h : Tidy cs) : cs.getLast? ≠ some '\n' := by
  intro hlast
  obtain ⟨front, rfl⟩ := List.getLast?_eq_some_iff.1 hlast
  obtain ⟨n, tail, hafter, c, rest, rfl, -⟩ := h.indented front [] rfl
  simp at hafter

end Tidy

theorem not_lineEnd_of_mem_escapeChar {x : Char} (hx : x ∈ escapeChar c) : x ≠ '\n' ∧ x ≠ '\r' := by
  have hdigit : ∀ n < 16, hexDigit n ≠ '\n' ∧ hexDigit n ≠ '\r' := by decide
  rcases escapeChar_cases c with ⟨e, hescape, -, he, -⟩ | ⟨hescape, hcontrol, -⟩ |
      ⟨hescape, -, -, hcontrol, -⟩
  · have hletter : e ≠ '\n' ∧ e ≠ '\r' := by constructor <;> rintro rfl <;> cases he
    rw [hescape] at hx
    simp only [List.mem_cons, List.not_mem_nil, or_false] at hx
    rcases hx with rfl | rfl
    · decide
    · exact hletter
  · rw [hescape] at hx
    simp only [List.mem_cons, List.not_mem_nil, or_false] at hx
    rcases hx with rfl | rfl | rfl | rfl | rfl | rfl
    iterate 4 decide
    · exact hdigit _ (by omega)
    · exact hdigit _ (by omega)
  · rw [hescape, List.mem_singleton] at hx
    subst hx
    constructor <;> rintro rfl <;> exact hcontrol (by decide)

theorem tidy_quoted (s : String) : Tidy (quoted s) := by
  have hplain : ∀ x ∈ quoted s, x ≠ '\n' ∧ x ≠ '\r' := by
    intro x hx
    rw [quoted, List.mem_cons, List.mem_append, List.mem_singleton, List.mem_flatMap] at hx
    rcases hx with rfl | ⟨c, -, hx⟩ | rfl
    · decide
    · exact not_lineEnd_of_mem_escapeChar hx
    · decide
  exact .of_not_mem (fun h => (hplain _ h).1 rfl) (fun h => (hplain _ h).2 rfl)

theorem tidy_toString (n : Int) : Tidy (toString n).toList :=
  .of_not_mem (fun h => ne_of_eq_or_isDigit (eq_or_isDigit_of_mem_toString h) (by decide) (by decide) rfl)
    (fun h => ne_of_eq_or_isDigit (eq_or_isDigit_of_mem_toString h) (by decide) (by decide) rfl)

theorem tidy_prettyItems {vs : List Json} (h : ∀ v ∈ vs, Exact v ∧ Tidy (pretty level v)) :
    Tidy (prettyItems level vs) := by
  induction vs with
  | nil => exact .of_all rfl
  | cons v vs ih =>
    obtain ⟨hv, htidy⟩ := h v (by simp)
    have hvs := htidy.append (ih fun u hu => h u (by simp [hu]))
    have hcomma : Tidy [','] := .of_all rfl
    have hline := hcomma.append (hvs.newLine ((hv.beginsLine level).append _) level)
    simpa [prettyItems, newLine] using hline

theorem tidy_member (k : String) (h : Tidy (pretty level v)) (hcs : Tidy cs) :
    Tidy (newLine level ++ (quoted k ++ ':' :: ' ' :: (pretty level v ++ cs))) := by
  have hcolon : Tidy [':', ' '] := .of_all rfl
  have hmember := (tidy_quoted k).append (hcolon.append (h.append hcs))
  exact hmember.newLine ⟨_, _, rfl, rfl, by decide⟩ level

theorem tidy_prettyMembers {ms : List (String × Json)} (h : ∀ m ∈ ms, Tidy (pretty level m.2)) :
    Tidy (prettyMembers level ms) := by
  induction ms with
  | nil => exact .of_all rfl
  | cons m ms ih =>
    have hms := ih fun m hm => h m (by simp [hm])
    have hcomma : Tidy [','] := .of_all rfl
    have hline := hcomma.append (tidy_member m.1 (h m (by simp)) hms)
    simpa [prettyMembers, newLine] using hline

/-- What closes an array or an object stands on a line of its own. -/
theorem tidy_close {bracket : Char} (h : bracket = ']' ∨ bracket = '\x7d') (level : Nat) :
    Tidy (newLine level ++ [bracket]) := by
  rcases h with rfl | rfl
  · exact Tidy.newLine (.of_all rfl) ⟨_, _, rfl, rfl, by decide⟩ level
  · exact Tidy.newLine (.of_all rfl) ⟨_, _, rfl, rfl, by decide⟩ level

/-- Every line of a written value but the first begins with blanks and no slash. -/
theorem Exact.tidy (h : Exact v) (level : Nat) : Tidy (pretty level v) := by
  induction h generalizing level with
  | null => exact .of_all rfl
  | bool b => cases b <;> exact .of_all rfl
  | int n => exact tidy_toString n
  | str s => exact tidy_quoted s
  | @arr items exact_items ih =>
    cases items with
    | nil => exact .of_all rfl
    | cons v vs =>
      have hbracket : Tidy ['['] := .of_all rfl
      have hvs : Tidy (prettyItems (level + 1) vs) :=
        tidy_prettyItems fun u hu => ⟨exact_items u (by simp [hu]), ih u (by simp [hu]) (level + 1)⟩
      have hitems := ((ih v (by simp) (level + 1)).append hvs).newLine
        (((exact_items v (by simp)).beginsLine (level + 1)).append _) (level + 1)
      have htext := (hbracket.append hitems).append (tidy_close (.inl rfl) level)
      simpa [pretty, newLine] using htext
  | @obj members exact_members ih =>
    cases members with
    | nil => exact .of_all rfl
    | cons m ms =>
      have hbracket : Tidy ['\x7b'] := .of_all rfl
      have hms : Tidy (prettyMembers (level + 1) ms) :=
        tidy_prettyMembers fun m hm => ih m (by simp [hm]) (level + 1)
      have hmembers := tidy_member m.1 (ih m (by simp) (level + 1)) hms
      have htext := (hbracket.append hmembers).append (tidy_close (.inr rfl) level)
      simpa [pretty, newLine] using htext

end Scriptorium.Json
