import Scriptorium.Proofs.Editor.CompletionRanking
import Scriptorium.Proofs.Editor.TokenCut
import Scriptorium.Proofs.Suggestion.OfflineCompletion

/-!
# Continuations and the code before them

The offline continuation goes right behind the context. It leaves the tokens of the context as they are, but for a last
word that it completes, unless the context ends within a string or comment, unless it ends in a word for which nothing
is left to complete and the starter snippet is put right behind it, and unless the reply begins with what a numeral or
symbol takes: `continuation_keeps_iff`.
-/

namespace Scriptorium.Assist

open Editor Text

variable {reg : Registry} {x before u answer : List Char} {s t : Token}

/-- The text ends within a string or comment. -/
def EndsOpen (x : List Char) : Prop := ∃ t ∈ tokenize x, t.Covers (size x)

/-- The text ends in a name or keyword. -/
def EndsInWord (x : List Char) : Prop := ∃ t ∈ tokenize x, t.IsWord ∧ t.stop = size x

/-- The answer is what is missing of a candidate for the name at the end of the text. -/
def Completes (reg : Registry) (x answer : List Char) : Prop :=
  ∃ typed c, typedAt? x (size x) = some typed ∧ typed ≠ [] ∧ c ∈ Completion.items reg typed ∧ remainder c typed = answer

/-- The text ends in a numeral. -/
def EndsInNumeral (x : List Char) : Prop := ∃ t ∈ tokenize x, t.kind = .number ∧ t.stop = size x

/-- The names in the registry are names of the language. -/
def HasNames (reg : Registry) : Prop :=
  ∀ ns ∈ reg.namespaces, IsName ns.name.toList ∧ ∀ m ∈ ns.members, IsName m.name.toList

/-- A numeral or symbol of the text and its answer goes over the place where the answer begins. -/
def Joins (x answer : List Char) : Prop := ∃ t : Token, t.Over x answer ∧ (t.kind = .number ∨ t.kind = .symbol)

/-- The last token is a word, and a longer word takes its place. -/
def ExtendsWord (x answer : List Char) : Prop :=
  ∃ ts t s, tokenize x = ts ++ [t] ∧ t.IsWord ∧ ts ++ [s] <+: tokenize (x ++ answer) ∧ s.IsWord ∧ s.start = t.start ∧
    t.text <+: s.text

/-- The text with the answer begins with all tokens of the text, of which the last may be a word that is completed. -/
def KeepsCode (reg : Registry) (x answer : List Char) : Prop :=
  tokenize x <+: tokenize (x ++ answer) ∨ (Completes reg x answer ∧ ExtendsWord x answer)

/-! ## What is answered -/

theorem continuation_cases (reg : Registry) (x : List Char) :
    continuation reg x = starterSnippet ∨ Completes reg x (continuation reg x) := by
  rw [continuation_eq]
  unfold completing
  split
  · exact .inl rfl
  · exact .inl rfl
  · next typed hnil htyped =>
    split
    · exact .inl rfl
    · next c rest hitems =>
      split
      · exact .inl rfl
      · exact .inr ⟨typed, c, htyped, hnil, hitems ▸ List.mem_cons_self, rfl⟩

theorem starterSnippet_cons : ∃ tail, starterSnippet = 'l' :: tail := ⟨_, rfl⟩

/-- Nothing is completed behind a character that is in no name. -/
theorem not_completes_of_mark {m : Char} (hlast : x.getLast? = some m) (hmark : isNameChar m = false)
    (hsep : Registry.isSeparator m = false) : ¬ Completes reg x answer := by
  rintro ⟨typed, c, htyped, hne, -⟩
  rw [typedAt?_end] at htyped
  split at htyped
  · cases htyped
  · rw [(names_of_mark hlast hmark hsep).2] at htyped
    exact hne (Option.some.inj htyped).symm

/-- Nothing is completed in a string or comment. -/
theorem EndsOpen.not_completes (h : EndsOpen x) : ¬ Completes reg x answer := by
  obtain ⟨t, ht, hcovers⟩ := h
  by_cases hjudged : size x = t.stop ∧ Misjudged t.kind t.text
  · obtain ⟨hstop, hjudged⟩ := hjudged
    obtain ⟨before, hx, -⟩ := exists_split_of_stop (y := []) (by rwa [List.append_nil]) hstop.symm
    have hopen : ¬ Terminated t.kind t.text := (hcovers.2.2.resolve_left (Nat.not_lt.2 hstop.ge)).2
    have hlast : x.getLast? = some ']' := by
      rw [hx, List.getLast?_append, hjudged.getLast? hopen]
      rfl
    exact not_completes_of_mark hlast rfl rfl
  · rintro ⟨typed, c, htyped, -⟩
    have hcode := (isCodePosition_iff (Nat.le_refl (size x))).2 ⟨t, ht, iff_of_true hcovers hjudged⟩
    rw [typedAt?_end, if_pos (.inl hcode)] at htyped
    cases htyped

/-! ## Strings and comments that the answer goes into -/

/-- A string or comment begins with a quote, with two dashes or with a long bracket. -/
theorem opens_of_lexemeLength? {c : Char} {cs : List Char} {kind : LexemeKind} {n : Nat}
    (h : lexemeLength? (c :: cs) = some (kind, n)) (hkind : kind = .string ∨ kind = .comment) :
    (c = '"' ∨ c = '\'') ∨ (c = '-' ∧ cs.head? = some '-') ∨ bracketLevel? (c :: cs) ≠ none := by
  rcases lexemeLength?_cases h with ⟨rest, rfl, rfl, -⟩ | ⟨-, hquote, -⟩ | ⟨_, -, hlevel, -⟩ | ⟨rfl, -⟩ | ⟨rfl, -⟩ |
    ⟨rfl, -⟩
  · exact .inr (.inl ⟨rfl, rfl⟩)
  · exact .inl hquote
  · exact .inr (.inr (by simp [hlevel]))
  · simp at hkind
  · rcases wordKind_cases ((c :: cs).takeWhile isNameChar) with hword | hword <;> simp [hword] at hkind
  · simp at hkind

/-- The snippet completes no opening. -/
theorem not_stringOrComment_of_isOpening {kind : LexemeKind} {n : Nat} (h : IsOpening u)
    (hscan : lexemeLength? (u ++ starterSnippet) = some (kind, n)) : ¬ (kind = .string ∨ kind = .comment) := by
  obtain ⟨tail, htail⟩ := starterSnippet_cons
  rw [htail] at hscan
  intro hkind
  rcases h with rfl | ⟨level, rfl⟩
  · rcases opens_of_lexemeLength? hscan hkind with hquote | ⟨-, hdash⟩ | hlevel
    · simp at hquote
    · simp at hdash
    · exact hlevel rfl
  · have hrun : (List.replicate level '=' ++ 'l' :: tail).takeWhile (· == '=') = List.replicate level '=' :=
      takeWhile_of_head? (fun e he => by simp [List.eq_of_mem_replicate he]) (by simp)
    rcases opens_of_lexemeLength? hscan hkind with hquote | ⟨hdash, -⟩ | hlevel
    · simp at hquote
    · cases hdash
    · exact hlevel (by simp [bracketLevel?, hrun])

/-- A string or comment over the cut is open before it. -/
theorem endsOpen_of_over (h : t.Over x (continuation reg x)) (hkind : t.kind = .string ∨ t.kind = .comment) :
    EndsOpen x := by
  obtain ⟨before, u, hcut⟩ := h.exists_cut
  obtain ⟨c, u, rfl⟩ := List.exists_cons_of_ne_nil hcut.nonempty
  obtain ⟨back, rest, hback, htext, -⟩ := hcut.front
  have hlong : u.length + 1 < t.text.length := by
    have hpos := List.length_pos_iff.2 hback
    rw [htext, List.length_append, List.length_cons]
    omega
  rcases lexemeLength?_front hcut.scan hlong hkind with hopening | ⟨hopen, hread⟩
  · obtain ⟨m, hm, hmark, hsep⟩ := getLast?_of_isOpening hopening
    have hlast : x.getLast? = some m := by
      rw [hcut.cut, List.getLast?_append, hm]
      rfl
    have hsnippet := (continuation_cases reg x).resolve_right (not_completes_of_mark hlast hmark hsep)
    have hscan := hcut.scan
    rw [hsnippet] at hscan
    exact absurd hkind (not_stringOrComment_of_isOpening hopening hscan)
  · have hpoint : c :: u ≠ ['.'] := by
      intro hpoint
      rw [hpoint] at hread
      obtain ⟨hsymbol, -⟩ := Prod.mk.inj (Option.some.inj hread)
      rw [← hsymbol] at hkind
      simp at hkind
    have hmem : ⟨t.start, t.kind, c :: u⟩ ∈ tokenize x := by
      rw [hcut.tokenize_concat h.1 hpoint hread]
      exact List.mem_append_right _ (List.mem_singleton_self _)
    exact ⟨_, hmem, hkind, h.2.1, .inr ⟨hcut.size_eq, hopen.not_terminated⟩⟩

/-- An open string or comment takes the snippet up. -/
theorem EndsOpen.not_prefix (h : EndsOpen x) : ¬ tokenize x <+: tokenize (x ++ continuation reg x) := by
  obtain ⟨tail, htail⟩ := starterSnippet_cons
  rw [(continuation_cases reg x).resolve_right h.not_completes, htail]
  rintro hlead
  obtain ⟨t, ht, hkind, -, hend⟩ := h
  obtain ⟨hstop, hopen⟩ := hend.resolve_left (Nat.not_lt.2 (stop_le_size ht))
  obtain ⟨-, -, -, hscan⟩ := exists_split_of_stop (hlead.subset ht) hstop.symm
  rcases terminated_or_endsLine hscan hkind with hterminated | hline
  · exact hopen hterminated
  · exact absurd (hline.head (p := (· ≠ 'l')) (by decide) 'l' rfl) (by simp)

/-! ## Words that the answer goes on with -/

/-- A word takes the snippet up. -/
theorem EndsInWord.not_prefix (h : EndsInWord x) : ¬ tokenize x <+: tokenize (x ++ starterSnippet) := by
  obtain ⟨tail, htail⟩ := starterSnippet_cons
  rw [htail]
  rintro hlead
  obtain ⟨t, ht, hword, hstop⟩ := h
  obtain ⟨-, -, hne, hscan⟩ := exists_split_of_stop (hlead.subset ht) hstop
  have hend := (isName_of_word hscan hne hword).2 'l' rfl
  cases hend

/-- A word over the cut is the last token of the text. -/
theorem extendsWord_of_over (h : t.Over x answer) (hword : t.IsWord) : EndsInWord x ∧ ExtendsWord x answer := by
  obtain ⟨before, u, hcut⟩ := h.exists_cut
  have htokens := hcut.tokenize_word h.1 hword
  obtain ⟨back, rest, -, htext, -⟩ := hcut.front
  have hmem : ⟨t.start, wordKind u, u⟩ ∈ tokenize x := by
    rw [htokens]
    exact List.mem_append_right _ (List.mem_singleton_self _)
  have hfront : Token.IsWord ⟨t.start, wordKind u, u⟩ := wordKind_cases u
  exact ⟨⟨_, hmem, hfront, hcut.size_eq.symm⟩, tokenize before, _, t, htokens, hfront, hcut.prefix h.1, hword, rfl,
    back, htext.symm⟩

/-- Where a longer word takes the place of the last token, no other token goes over the cut. -/
theorem not_joins_of_extendsWord (h : ExtendsWord x answer) : ¬ Joins x answer := by
  obtain ⟨ts, t, s, htokens, -, hlead, hword, hstart, hlonger⟩ := h
  rintro ⟨j, hover, hkind⟩
  have hs : s ∈ tokenize (x ++ answer) := hlead.subset (List.mem_append_right ts (List.mem_singleton_self s))
  have hmem : t ∈ tokenize x := htokens ▸ List.mem_append_right ts (List.mem_singleton_self t)
  have hstop : t.stop ≤ s.stop := by
    obtain ⟨more, hmore⟩ := hlonger
    rw [Token.stop, Token.stop, hstart, ← hmore, size_append]
    omega
  obtain ⟨r, hr, hle, hlt⟩ := hover.exists_front
  have hinside : s.start < j.stop := by
    have := start_lt_stop hmem
    have := stop_le_size hmem
    have := hover.2.2
    omega
  rw [htokens] at hr
  rcases List.mem_append.1 hr with hr | hr
  · -- a token that is kept is not the one over the cut
    have hsame := eq_of_overlap (hlead.subset (List.mem_append_left [s] hr)) hover.1
      (Nat.lt_of_le_of_lt hle (start_lt_stop hover.1)) hlt
    have hend := stop_le_size (htokens ▸ List.mem_append_left [t] hr : r ∈ tokenize x)
    rw [hsame] at hend
    exact absurd hover.2.2 (Nat.not_lt.2 hend)
  · obtain rfl := List.mem_singleton.1 hr
    obtain rfl := eq_of_overlap hs hover.1 hinside (Nat.lt_of_lt_of_le hlt hstop)
    rcases hkind with hkind | hkind <;> simp [Token.IsWord, hkind] at hword

/-! ## Numerals and symbols that the answer goes on with -/

theorem isName_builtin : ∀ name ∈ builtinFunctions, IsName name.toList := by
  have hall : ∀ name ∈ builtinFunctions,
      name.toList.head?.any isNameStart = true ∧ name.toList.all isNameChar = true := by
    decide
  exact fun name hname => isName_of_all (hall name hname).1 (hall name hname).2

/-- Every candidate is a name. -/
theorem HasNames.isName_label {c : Completion} {typed : List Char} (h : HasNames reg)
    (hc : c ∈ Completion.items reg typed) : IsName c.label.toList := by
  rw [Completion.items_eq_ranked] at hc
  have hmem := Completion.mem_of_mem_ranked hc
  split at hmem
  · next qualifier name _ =>
    obtain ⟨m, hm, rfl⟩ := List.mem_map.1 hmem
    have hlisted := List.mem_of_mem_filter hm
    unfold Registry.lookup at hlisted
    dsimp only at hlisted
    split at hlisted
    · next ns hns =>
      obtain ⟨i, -, hi⟩ := Option.bind_eq_some_iff.1 hns
      exact (h ns (List.mem_of_getElem? hi)).2 m (List.mem_mergeSort.1 hlisted)
    · cases hlisted
  · rcases Completion.cases_of_mem_plainCandidates hmem with ⟨ns, hns, rfl⟩ | ⟨word, hword, rfl⟩ | ⟨name, hname, rfl⟩
    · exact (h ns (List.mem_of_mem_filter hns)).1
    · exact isName_of_mem_keywords (by rwa [String.ofList_toList])
    · exact isName_builtin name hname

/-- The name is cut before the last word of the text, or it is that word. -/
theorem splitQualifier?_typedName (x : List Char) :
    (∃ qualifier, Completion.splitQualifier? (typedName x) = some (qualifier, lastWord x)) ∨
      (Completion.splitQualifier? (typedName x) = none ∧ typedName x = lastWord x) := by
  have hword : ∀ e ∈ lastWord x, Registry.isSeparator e = false := fun e => not_isSeparator_of_mem_lastWord
  obtain ⟨qualifier, sep, hsep, htyped⟩ | htyped := typedName_cases x <;> rw [htyped]
  · exact .inl ⟨qualifier, Completion.splitQualifier?_append hsep hword⟩
  · exact .inr ⟨Completion.splitQualifier?_of_all hword, rfl⟩

/-- What is missing of a candidate is what its label has behind the last word of the text. -/
theorem remainder_typedName (c : Completion) (x : List Char) :
    remainder c (typedName x) =
      c.label.toList.drop (lastWord x).length ++ if c.kind = .method then ['(', ')'] else [] := by
  unfold remainder
  obtain ⟨qualifier, hsplit⟩ | ⟨hsplit, htyped⟩ := splitQualifier?_typedName x
  · rw [hsplit]
  · rw [hsplit, htyped]

/-- What completes a name begins with a character of it, which can begin a name if nothing was typed, or with the
parentheses behind it. -/
theorem Completes.head {d : Char} (h : Completes reg x (d :: answer)) (hnames : HasNames reg) :
    (isNameChar d = true ∧ (lastWord x = [] → isNameStart d = true)) ∨ d = '(' := by
  obtain ⟨typed, c, htyped, -, hc, hanswer⟩ := h
  rw [typedAt?_end] at htyped
  split at htyped
  · cases htyped
  obtain rfl := Option.some.inj htyped
  rw [remainder_typedName] at hanswer
  obtain ⟨e, rest, hlabel, hstart, hchars⟩ := hnames.isName_label hc
  cases hdrop : c.label.toList.drop (lastWord x).length with
  | nil =>
    rw [hdrop, List.nil_append] at hanswer
    split at hanswer
    · exact .inr (List.cons.inj hanswer).1.symm
    · cases hanswer
  | cons a tail =>
    rw [hdrop] at hanswer
    obtain ⟨rfl, -⟩ := List.cons.inj hanswer
    have hmem : a ∈ e :: rest := hlabel ▸ List.mem_of_mem_drop (hdrop ▸ List.mem_cons_self)
    refine .inl ⟨?_, fun hnil => ?_⟩
    · rcases List.mem_cons.1 hmem with rfl | hmem
      · exact isNameChar_of_isNameStart hstart
      · exact hchars a hmem
    · rw [hnil, hlabel] at hdrop
      obtain ⟨rfl, -⟩ := List.cons.inj hdrop
      exact hstart

theorem Joins.ne_nil (h : Joins x answer) : answer ≠ [] := by
  rintro rfl
  obtain ⟨t, hover, -⟩ := h
  have hstop := stop_le_size hover.1
  rw [List.append_nil] at hstop
  exact absurd hover.2.2 (Nat.not_lt.2 hstop)

/-- No numeral and no symbol takes the snippet. -/
theorem Joins.completes (h : Joins x (continuation reg x)) : Completes reg x (continuation reg x) := by
  refine (continuation_cases reg x).resolve_left fun hsnippet => ?_
  obtain ⟨tail, htail⟩ := starterSnippet_cons
  obtain ⟨t, hover, hkind⟩ := h
  rw [hsnippet, htail] at hover
  obtain ⟨hnumber, hsymbol⟩ := hover.head_cases
  rcases hkind with hkind | hkind
  · cases hnumber hkind
  · obtain ⟨op, hop, hmem⟩ := hsymbol hkind
    cases not_isNameChar_of_mem_longSymbols hop 'l' hmem

/-- Behind names only numerals go on. -/
theorem Joins.endsInNumeral (h : Joins x answer) (hcompletes : Completes reg x answer) (hnames : HasNames reg) :
    EndsInNumeral x := by
  obtain ⟨d, answer, rfl⟩ := List.exists_cons_of_ne_nil h.ne_nil
  have hhead := hcompletes.head hnames
  obtain ⟨t, hover, hkind⟩ := h
  rcases hkind with hkind | hkind
  · obtain ⟨before, u, hcut⟩ := hover.exists_cut
    have hpoint : u ≠ ['.'] := by
      -- a point would need a digit behind it, and no name begins with one
      rintro rfl
      have hlast : lastWord x = [] := by
        rw [hcut.cut, lastWord_append_mark rfl]
        rfl
      have hscan := hcut.scan
      rw [hkind] at hscan
      have hdigit : d.isDigit = true := by simpa [startsNumber] using (startsNumber_of_number hscan).1
      rcases hhead with ⟨-, hstart⟩ | rfl
      · rw [not_isDigit_of_isNameStart (hstart hlast)] at hdigit
        cases hdigit
      · cases hdigit
    have hmem : ⟨t.start, .number, u⟩ ∈ tokenize x := by
      rw [hcut.tokenize_numeral hover.1 hkind hpoint]
      exact List.mem_append_right _ (List.mem_singleton_self _)
    exact ⟨_, hmem, rfl, hcut.size_eq.symm⟩
  · obtain ⟨op, hop, hmem⟩ := hover.head_cases.2 hkind
    have hmark := not_isNameChar_of_mem_longSymbols hop d hmem
    rcases hhead with ⟨hname, -⟩ | rfl
    · rw [hmark] at hname
      cases hname
    · have hnone : ∀ op ∈ longSymbols, '(' ∉ op := by decide
      exact absurd hmem (hnone op hop)

/-! ## The code that is kept -/

theorem keepsCode_continuation (reg : Registry) (x : List Char) :
    KeepsCode reg x (continuation reg x) ↔
      ¬ EndsOpen x ∧ (EndsInWord x → Completes reg x (continuation reg x)) ∧ ¬ Joins x (continuation reg x) := by
  constructor
  · rintro (hlead | ⟨hcompletes, hextends⟩)
    · refine ⟨fun hopen => hopen.not_prefix hlead, fun hword => ?_, ?_⟩
      · refine (continuation_cases reg x).resolve_left fun hsnippet => hword.not_prefix ?_
        rwa [hsnippet] at hlead
      · rintro ⟨t, hover, -⟩
        exact tokenize_prefix_iff.1 hlead t hover
    · exact ⟨fun hopen => hopen.not_completes hcompletes, fun _ => hcompletes, not_joins_of_extendsWord hextends⟩
  · rintro ⟨hopen, hword, hjoins⟩
    by_cases hover : ∃ t : Token, t.Over x (continuation reg x)
    · obtain ⟨t, hover⟩ := hover
      have hextends (h : t.IsWord) : KeepsCode reg x (continuation reg x) :=
        .inr ⟨hword (extendsWord_of_over hover h).1, (extendsWord_of_over hover h).2⟩
      cases hkind : t.kind with
      | string => exact absurd (endsOpen_of_over hover (.inl hkind)) hopen
      | comment => exact absurd (endsOpen_of_over hover (.inr hkind)) hopen
      | number => exact absurd ⟨t, hover, .inl hkind⟩ hjoins
      | symbol => exact absurd ⟨t, hover, .inr hkind⟩ hjoins
      | name => exact hextends (.inl hkind)
      | keyword => exact hextends (.inr hkind)
    · exact .inl (tokenize_prefix_iff.2 (not_exists.1 hover))

/-- The answer leaves the code before the cursor as it is, unless the text ends within a string or comment, ends in a
word that the answer does not complete, or ends in what a numeral or symbol goes on from. Only a completion can go on so,
and if the registry has only names, only behind a numeral. -/
theorem continuation_keeps_iff (reg : Registry) (x : List Char) :
    let answer := continuation reg x
    (KeepsCode reg x answer ↔ ¬ EndsOpen x ∧ (EndsInWord x → Completes reg x answer) ∧ ¬ Joins x answer) ∧
      (Joins x answer → Completes reg x answer ∧ (HasNames reg → EndsInNumeral x)) :=
  ⟨keepsCode_continuation reg x, fun h => ⟨h.completes, h.endsInNumeral h.completes⟩⟩

/-- Behind a name that begins no candidate, the snippet becomes part of the name. -/
theorem continuation_joins_name :
    let x := ['f', 'o', 'o']
    isCodePosition x (size x) = true ∧ ¬ EndsOpen x ∧ tokenize x = [⟨0, .name, x⟩] ∧
      [⟨0, .name, ['f', 'o', 'o', 'l', 'o', 'c', 'a', 'l']⟩] <+: tokenize (x ++ continuation default x) ∧
      ¬ KeepsCode default x (continuation default x) := by
  intro x
  have htokens : tokenize x = [⟨0, .name, x⟩] := tokenize_of_lexemeLength? (List.cons_ne_nil _ _) rfl
  have hcode : isCodePosition x (size x) = true := by
    rw [isCodePosition, htokens]
    rfl
  have htyped : typedAt? x (size x) = some x := by
    rw [typedAt?_end, hcode]
    rfl
  have hitems : Completion.items default x = [] := Completion.ranked_nil
  have hanswer : continuation default x = starterSnippet := by
    rw [continuation_eq, htyped, completing, hitems]
    exact List.cons_ne_nil _ _
  have hword : EndsInWord x := ⟨_, htokens ▸ List.mem_singleton_self _, .inl rfl, rfl⟩
  refine ⟨hcode, ?_, htokens, ?_, ?_⟩
  · rintro ⟨t, ht, hkind, -⟩
    rw [htokens, List.mem_singleton] at ht
    subst ht
    rcases hkind with hkind | hkind <;> cases hkind
  · rw [hanswer]
    have hscan :
        lexemeLength? (['f', 'o', 'o', 'l', 'o', 'c', 'a', 'l'] ++ starterSnippet.drop 5) = some (.name, 8) := rfl
    exact tokenize_append_of_lexemeLength? (List.cons_ne_nil _ _) hscan
  · rintro (hlead | ⟨⟨typed, c, htyped', -, hc, -⟩, -⟩)
    · rw [hanswer] at hlead
      exact hword.not_prefix hlead
    · rw [htyped] at htyped'
      obtain rfl := Option.some.inj htyped'
      rw [hitems] at hc
      cases hc

end Scriptorium.Assist
