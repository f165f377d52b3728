import Scriptorium.Proofs.Editor.LexemeRecognition

/-!
# Sequences of lexemes

A text of lexemes, each on lines of its own, is cut into exactly these lexemes: `tokenize_join`. One lexeme in
front of the end of its line is found by `Spelled.lexemeLength?`; the rest is an induction on the list.
-/

namespace Scriptorium.Editor

open Text

variable {cs rest : List Char} {kind : LexemeKind}

/-- Every class: the lexeme in front of the end of its line is found whole. -/
theorem Spelled.lexemeLength? (h : Spelled kind cs) (hrest : EndsLine rest) :
    lexemeLength? (cs ++ rest) = some (kind, cs.length) := by
  cases h with
  | keyword reserved =>
    rw [(isName_of_mem_keywords reserved).lexemeLength? hrest, wordKind, if_pos reserved]
  | name word free => rw [word.lexemeLength? hrest, wordKind, if_neg free]
  | decimal numeral => exact numeral.lexemeLength? hrest
  | hexadecimal numeral => exact numeral.lexemeLength? hrest
  | @quoted quote body isQuote escaped =>
    have hlength := lexemeLength?_quoted isQuote escaped rest
    rw [List.cons_append, List.append_assoc, List.singleton_append, hlength, List.length_cons,
      List.length_append, List.length_singleton, Nat.add_comm]
  | longString long => exact lexemeLength?_long long rest
  | lineComment oneLine short => exact lexemeLength?_lineComment oneLine short hrest
  | longComment long => exact lexemeLength?_longComment long rest
  | longSymbol listed => exact lexemeLength?_longSymbol listed hrest
  | symbol plain => exact plain.lexemeLength? hrest

theorem Spelled.ne_nil (h : Spelled kind cs) : cs ≠ [] := by
  rintro rfl
  have hfound := h.lexemeLength? endsLine_nil
  cases hfound

theorem pieces_lexeme (h : Spelled kind cs) (hrest : EndsLine rest) :
    pieces (cs ++ rest) = .lexeme ⟨kind, cs⟩ :: pieces rest := by
  have hlength := h.lexemeLength? hrest
  obtain ⟨c, tail, rfl⟩ := List.exists_cons_of_ne_nil h.ne_nil
  rw [List.cons_append] at hlength ⊢
  rw [pieces, hlength]
  simp

theorem pieces_lineFeed (cs : List Char) : pieces ('\n' :: cs) = .gap '\n' :: pieces cs := by
  rw [pieces, lexemeLength?, if_pos (by decide)]

/-- The tokens of lexemes, each on lines of its own, the first at byte `offset`. -/
def onLines (offset : Nat) : List Lexeme → List Token
  | [] => []
  | l :: ls => ⟨offset, l⟩ :: onLines (offset + size l.text + 1) ls

theorem locate_pieces_join {lexemes : List Lexeme} (h : ∀ l ∈ lexemes, Spelled l.kind l.text) (offset : Nat) :
    locate offset (pieces (join ['\n'] (lexemes.map (·.text)))) = onLines offset lexemes := by
  induction lexemes generalizing offset with
  | nil => simp [join, pieces, locate, onLines]
  | cons l ls ih =>
    have hl := h l (by simp)
    have hls := ih fun x hx => h x (by simp [hx])
    cases ls with
    | nil =>
      have hpieces := pieces_lexeme hl endsLine_nil
      rw [List.append_nil] at hpieces
      simp only [List.map_cons, List.map_nil, join, hpieces, pieces, locate, onLines]
    | cons next ls =>
      have hpieces := pieces_lexeme hl (endsLine_lineFeed (join ['\n'] ((next :: ls).map (·.text))))
      have hjoin : join ['\n'] ((l :: next :: ls).map (·.text)) =
          l.text ++ '\n' :: join ['\n'] ((next :: ls).map (·.text)) := by
        rw [List.map_cons, List.map_cons, join, List.append_assoc, List.singleton_append]
        simp
      have hsize : ('\n' : Char).utf8Size = 1 := rfl
      rw [hjoin, hpieces, pieces_lineFeed, locate, locate, hsize, hls]
      rfl

/-- The lexer finds every sequence of well-spelled lexemes exactly, whatever their classes and texts. -/
theorem tokenize_join {lexemes : List Lexeme} (h : ∀ l ∈ lexemes, Spelled l.kind l.text) :
    tokenize (join ['\n'] (lexemes.map (·.text))) = onLines 0 lexemes :=
  locate_pieces_join h 0

/-- Neighbours that begin alike: a long comment, a minus and a line comment; a long string and a bracket; points
and numerals; a reserved word and a name. -/
theorem tokenize_join_overlapping :
    tokenize "--[=[]]]=]\n-\n--[=\n[=[]]]=]\n[\n...\n.5e-3\n0xA.p+1\n'\\''\nend\nends".toList =
      [⟨0, .comment, "--[=[]]]=]".toList⟩, ⟨11, .symbol, "-".toList⟩, ⟨13, .comment, "--[=".toList⟩,
        ⟨18, .string, "[=[]]]=]".toList⟩, ⟨27, .symbol, "[".toList⟩, ⟨29, .symbol, "...".toList⟩,
        ⟨33, .number, ".5e-3".toList⟩, ⟨39, .number, "0xA.p+1".toList⟩, ⟨47, .string, "'\\''".toList⟩,
        ⟨52, .keyword, "end".toList⟩, ⟨56, .name, "ends".toList⟩] := by
  have hclosed : EndsFirst (closer 1) [']', ']', ']', '=', ']'] :=
    .cons (by decide) (.cons (by decide) .self)
  have hlongComment : Spelled .comment ['-', '-', '[', '=', '[', ']', ']', ']', '=', ']'] :=
    .longComment ⟨_, rfl, hclosed⟩
  have hminus : Spelled .symbol ['-'] := .symbol ⟨rfl, rfl, rfl, by decide, by decide, by decide⟩
  have hshort : ∀ level, ¬ opener level <+: ['[', '='] := by
    intro level hprefix
    obtain rfl : level = 0 := by simpa [length_opener] using hprefix.length_le
    exact absurd hprefix (by decide)
  have hlineComment : Spelled .comment ['-', '-', '[', '='] :=
    .lineComment (by decide) hshort
  have hlongString : Spelled .string ['[', '=', '[', ']', ']', ']', '=', ']'] := .longString ⟨_, rfl, hclosed⟩
  have hbracket : Spelled .symbol ['['] := .symbol ⟨rfl, rfl, rfl, by decide, by decide, by decide⟩
  have hpoints : Spelled .symbol ['.', '.', '.'] := .longSymbol (by decide)
  have hdecimal : Spelled .number ['.', '5', 'e', '-', '3'] :=
    .decimal ⟨['.', '5'], ['e', '-', '3'], rfl, ⟨[], ['5'], by simp, by decide, .inl rfl⟩,
      .inr ⟨'e', ['-'], ['3'], rfl, by decide, by decide, by decide, by simp⟩⟩
  have hhexadecimal : Spelled .number ['0', 'x', 'A', '.', 'p', '+', '1'] :=
    .hexadecimal ⟨'x', ['A', '.'], ['p', '+', '1'], rfl, by decide,
      ⟨['A'], [], by simp [isHexDigit], by decide, .inl rfl⟩,
      .inr ⟨'p', ['+'], ['1'], rfl, by decide, by decide, by decide, by simp⟩⟩
  have hquoted : Spelled .string ['\'', '\\', '\'', '\''] := .quoted (.inr rfl) (.escape '\'' .nil)
  have hend : Spelled .keyword ['e', 'n', 'd'] := .keyword (by decide)
  have hends : Spelled .name ['e', 'n', 'd', 's'] :=
    .name ⟨'e', ['n', 'd', 's'], rfl, by decide, by simp [isNameChar]⟩ (by decide)
  have hall : ∀ l ∈ [Lexeme.mk .comment ['-', '-', '[', '=', '[', ']', ']', ']', '=', ']'], ⟨.symbol, ['-']⟩,
      ⟨.comment, ['-', '-', '[', '=']⟩, ⟨.string, ['[', '=', '[', ']', ']', ']', '=', ']']⟩, ⟨.symbol, ['[']⟩,
      ⟨.symbol, ['.', '.', '.']⟩, ⟨.number, ['.', '5', 'e', '-', '3']⟩,
      ⟨.number, ['0', 'x', 'A', '.', 'p', '+', '1']⟩, ⟨.string, ['\'', '\\', '\'', '\'']⟩,
      ⟨.keyword, ['e', 'n', 'd']⟩, ⟨.name, ['e', 'n', 'd', 's']⟩], Spelled l.kind l.text := by
    simp only [List.forall_mem_cons]
    exact ⟨hlongComment, hminus, hlineComment, hlongString, hbracket, hpoints, hdecimal, hhexadecimal,
      hquoted, hend, hends, by simp⟩
  exact tokenize_join hall

end Scriptorium.Editor
