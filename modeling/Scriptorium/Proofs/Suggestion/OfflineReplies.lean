import Scriptorium.Proofs.Registry.Disabled
import Scriptorium.Proofs.Suggestion.Continuation
import Scriptorium.Proofs.Suggestion.Explanation
import Scriptorium.Proofs.Suggestion.Replacements

/-!
# Offline replies

The backend looks for blanks in the code that it is given, the engine in the text that it is to show. Between the two
stands a generator for each action and, for explanations, the change into comments. Tidying and the change into comments
keep what is blank blank and the rest not, and the other texts are never blank, so every request ends in a suggestion
that is shown, or is refused for want of code: `offline_requests_end`.
-/

namespace Scriptorium.Assist

open Editor Text

variable {reg : Registry} {q : Request} {text : List Char}

/-! ## What is shown of a text -/

theorem asComment_eq_nil_iff : asComment text = [] ↔ isBlankText text = true := by
  have hlines : asComment text = [] ↔ lines (trim text) = [] := by
    unfold asComment
    cases lines (trim text) <;> simp
  rw [hlines, lines_eq_nil_iff, trim_eq_nil_iff]

theorem isBlankText_asComment (text : List Char) : isBlankText (asComment text) = isBlankText text := by
  cases htext : isBlankText text with
  | true =>
    rw [asComment_eq_nil_iff.2 htext]
    rfl
  | false =>
    refine asComment_shown text fun hnil => ?_
    rw [asComment_eq_nil_iff.1 hnil] at htext
    cases htext

theorem isBlankText_presentation (action : Action) (text : List Char) :
    isBlankText (presentation action text) = isBlankText text := by
  cases action with
  | explain => exact isBlankText_asComment text
  | _ => rfl

/-! ## The texts -/

theorem isBlankText_join (ls : List (List Char)) : isBlankText (join ['\n'] ls) = ls.all isBlankText := by
  by_cases hls : ls = []
  · rw [hls]
    rfl
  · have hjoin := congrArg isBlankText (join_lineFeed hls)
    rw [isBlankText, List.all_cons, isBlankText, List.all_flatMap] at hjoin
    exact hjoin

theorem all_isBlankText_tidyLines (b : Bool) (ls : List (List Char)) :
    (tidyLines b ls).all isBlankText = ls.all isBlankText := by
  induction ls generalizing b with
  | nil => rfl
  | cons line ls ih =>
    cases hline : isBlankText line with
    | true =>
      rw [tidyLines_blank hline, List.all_append, ih, List.all_cons, hline]
      cases b <;> rfl
    | false =>
      rw [tidyLines_text hline, List.all_cons, List.all_cons, isBlankText_trimEnd, hline, Bool.false_and,
        Bool.false_and]

theorem isBlankText_tidy (code : List Char) : isBlankText (tidy code) = isBlankText code := by
  rw [tidy, isBlankText_join, all_isBlankText_tidyLines, all_isBlankText_lines]

theorem isBlankText_explanation (reg : Registry) (code : List Char) : isBlankText (explanation reg code) = false := by
  refine isBlankText_of_mem (c := 'L') ?_ rfl
  simp [explanation]

theorem isBlankText_guarded (code : List Char) (error? : Option String) :
    isBlankText (guarded code error?) = false := by
  have hmem : 'l' ∈ guardHeader := List.mem_cons_self
  refine isBlankText_of_mem (c := 'l') ?_ rfl
  simp [guarded, hmem]

theorem isBlankText_starterSnippet : isBlankText starterSnippet = false := by
  obtain ⟨tail, htail⟩ := starterSnippet_cons
  rw [htail]
  exact isBlankText_of_mem List.mem_cons_self rfl

theorem continuation_ne_nil (reg : Registry) (x : List Char) : continuation reg x ≠ [] := by
  have hsnippet : starterSnippet ≠ [] := by
    obtain ⟨tail, htail⟩ := starterSnippet_cons
    exact htail ▸ List.cons_ne_nil _ _
  rw [continuation_eq]
  unfold completing
  split
  · exact hsnippet
  · exact hsnippet
  · split
    · exact hsnippet
    · split
      · exact hsnippet
      · next hrest => exact mt List.isEmpty_iff.2 hrest

/-- A completion goes on with a character of a name or with parentheses, so names are all that it takes. -/
theorem isBlankText_continuation (h : HasNames reg) (x : List Char) : isBlankText (continuation reg x) = false := by
  rcases continuation_cases reg x with hsnippet | hcompletes
  · rw [hsnippet, isBlankText_starterSnippet]
  · obtain ⟨d, answer, hanswer⟩ := List.exists_cons_of_ne_nil (continuation_ne_nil reg x)
    rw [hanswer] at hcompletes ⊢
    refine isBlankText_of_mem List.mem_cons_self ?_
    rcases hcompletes.head h with ⟨hname, -⟩ | rfl
    · exact isBlank_of_isNameChar hname
    · rfl

/-! ## Answers -/

/-- Want of code is all that is refused. -/
theorem templateAnswer_error_iff (reg : Registry) (q : Request) (error : SuggestionError) :
    templateAnswer reg q = .error error ↔
      (q.action ≠ .suggest ∧ isBlankText q.selection = true) ∧ error = .invalidResponse "nothing selected" := by
  by_cases hrefused : q.action ≠ .suggest ∧ isBlankText q.selection = true
  · rw [templateAnswer, if_pos hrefused, Except.error.injEq, eq_comm]
    exact (and_iff_right hrefused).symm
  · rw [templateAnswer, if_neg hrefused]
    refine iff_of_false ?_ fun h => hrefused h.1
    cases q.action <;> rintro ⟨⟩

theorem isBlankText_of_templateAnswer (h : HasNames reg) (hok : templateAnswer reg q = .ok text) :
    isBlankText text = false := by
  unfold templateAnswer at hok
  split at hok
  · cases hok
  next hgiven =>
  obtain ⟨buffer, generation, action, selection, context, cursor⟩ := q
  cases action with
  | suggest =>
    obtain rfl := Except.ok.inj hok
    exact isBlankText_continuation h context
  | optimize =>
    obtain rfl := Except.ok.inj hok
    rw [isBlankText_tidy]
    simpa using hgiven
  | explain =>
    obtain rfl := Except.ok.inj hok
    exact isBlankText_explanation reg selection
  | fix error? =>
    obtain rfl := Except.ok.inj hok
    exact isBlankText_guarded selection error?

/-! ## Registries with names only -/

open RegistryBuilder

theorem hasNames_standard (facts : HostFacts) : HasNames (standard facts).build := by
  have hall : ∀ ns ∈ Registry.standardNamespaces, ∀ name ∈ ns.name :: ns.members.map (·.name),
      name.toList.head?.any isNameStart = true ∧ name.toList.all isNameChar = true := by
    decide
  have hname : ∀ ns ∈ Registry.standardNamespaces, ∀ name ∈ ns.name :: ns.members.map (·.name), IsName name.toList :=
    fun ns hns name hmem => isName_of_all (hall ns hns name hmem).1 (hall ns hns name hmem).2
  exact fun ns hns => ⟨hname ns hns _ List.mem_cons_self, fun m hm =>
    hname ns hns _ (List.mem_cons_of_mem _ (List.mem_map_of_mem hm))⟩

theorem HasNames.after_setEnabled {b : RegistryBuilder} (h : HasNames b.build) (name : String) (enabled : Bool) :
    HasNames (b.after (.setEnabled name enabled)).build := by
  unfold after
  cases hb : b.perform (.setEnabled name enabled) with
  | error e => exact h
  | ok b' =>
    obtain ⟨ns, hcall, -⟩ | ⟨name, enabled, -, rfl⟩ := perform_eq_ok hb
    · cases hcall
    · intro ns hns
      obtain ⟨other, hother, hname, hmembers⟩ := exists_of_mem_setFlag hns
      rw [hname, hmembers]
      exact h other hother

theorem HasNames.disables {b : RegistryBuilder} (h : HasNames b.build) (names : List String) :
    HasNames ((disables names).foldl after b).build := by
  induction names generalizing b with
  | nil => exact h
  | cons name names ih => exact ih (h.after_setEnabled name false)

/-! ## Requests -/

/-- With the standard namespaces, of which any may be disabled, the offline backend refuses a request exactly if it is
about code and there are only blanks in the selection, or in the line of the cursor if nothing is selected. The engine
logs the refusal, and shows what is answered to any other request. -/
theorem offline_requests_end (facts : HostFacts) (disabled : List String) (e : Engine) (j : Journal) (b : Buffer)
    (action : Action) (now : Nat) :
    let backend := templateBackend ((RegistryBuilder.disables disabled).foldl after (standard facts)).build
    let q := (e.trigger b action now).1
    let asked := (e.trigger b action now).2
    (∀ error, backend.suggest q = .error error ↔
      (action ≠ .suggest ∧ isBlankText ((b.selection.getD b.cursorLine).text b.text) = true) ∧
        error = .invalidResponse "nothing selected") ∧
    (∀ error, backend.suggest q = .error error →
      asked.onResponse j ⟨q.buffer, q.generation, .error error⟩ = (.failed, (asked.fail j q.generation error).2)) ∧
    ∀ text, backend.suggest q = .ok text →
      asked.onResponse j ⟨q.buffer, q.generation, .ok text⟩ =
        (.presented, asked.showing q.generation action (Request.target b action) text, j) := by
  intro backend q asked
  have hanchored (hne : action ≠ .suggest) : q.selection = (b.selection.getD b.cursorLine).text b.text := by
    cases action with
    | suggest => exact absurd rfl hne
    | _ => rfl
  have hphase : asked.phase = .requesting q.generation action (Request.target b action) := by
    rw [e.trigger_generation, e.trigger_phase]
  have hbuffer : q.buffer = asked.buffer := rfl
  rw [hbuffer]
  refine ⟨fun error => ?_, fun error _ => asked.onResponse_refused j error hphase, fun text hok => ?_⟩
  · refine (templateAnswer_error_iff _ q error).trans (and_congr_left' (and_congr_right fun hne => ?_))
    rw [hanchored hne]
  · have hnames := (hasNames_standard facts).disables disabled
    have hshown : isBlankText (presentation action text) = false := by
      rw [isBlankText_presentation, isBlankText_of_templateAnswer hnames hok]
    exact asked.onResponse_shown j hphase hshown

end Scriptorium.Assist
