import Scriptorium.Proofs.Suggestion.Continuation

/-!
# What a completion inserts

The word at a cursor is found three times: backwards from the cursor, behind the last separator of what has been
typed, and by its length when a label is cut. All three find the same word, which every label begins with, so
that a completion takes nothing away and inserts the rest of the label at the cursor: `completion_inserts`.
-/

namespace Scriptorium.Editor

open Text

variable {x word run qualifier : List Char} {sep : Char} {p : Char → Bool}

/-- The run is all that stands of some characters at the end of a text. -/
structure EndsInRun (p : Char → Bool) (x run : List Char) : Prop where
  cut : ∃ front, x = front ++ run ∧ ∀ c ∈ front.getLast?, p c = false
  all : ∀ c ∈ run, p c = true

/-- Before the word at the end of a text stands a separator, and before that a name, which begins with no digit. -/
structure Qualified (x word qualifier : List Char) (sep : Char) : Prop where
  separator : Registry.isSeparator sep = true
  cut : ∃ front, x = front ++ sep :: word ∧ EndsInRun isNameChar front qualifier
  nonempty : qualifier ≠ []
  begins : ¬ BeginsWithDigit qualifier

theorem endsInRun_lastWord (x : List Char) : EndsInRun isNameChar x (lastWord x) := by
  obtain ⟨front, hcut, hfront, hname⟩ := exists_lastWord x
  exact ⟨⟨front, hcut, hfront⟩, hname⟩

theorem EndsInRun.eq_lastWord (h : EndsInRun isNameChar x word) : word = lastWord x := by
  obtain ⟨⟨front, rfl, hfront⟩, hname⟩ := h
  exact (lastWord_append hfront hname).symm

theorem not_isNameChar_of_isSeparator (h : Registry.isSeparator sep = true) : isNameChar sep = false := by
  rw [← Bool.not_eq_true]
  intro hname
  rw [not_isSeparator_of_isNameChar hname] at h
  cases h

/-- What can stand in a name begins one, unless it is a digit. -/
theorem any_isNameStart (hne : run ≠ []) (hall : ∀ c ∈ run, isNameChar c = true) (hdigit : ¬ BeginsWithDigit run) :
    run.head?.any isNameStart = true := by
  obtain ⟨c, rest, rfl⟩ := List.exists_cons_of_ne_nil hne
  have hc := hall c List.mem_cons_self
  have hd : c.isDigit = false := Bool.eq_false_iff.2 hdigit
  rw [isNameChar, Char.isAlphanum, hd, Bool.or_false] at hc
  exact hc

theorem not_beginsWithDigit_of_isNameStart (h : run.head?.any isNameStart = true) : ¬ BeginsWithDigit run := by
  cases run with
  | nil => exact Bool.false_ne_true
  | cons c rest =>
    have hd : c.isDigit = false := not_isDigit_of_isNameStart h
    exact Bool.eq_false_iff.1 hd

/-! ## The typed name -/

theorem typedName_of_qualified (h : Qualified x (lastWord x) qualifier sep) :
    typedName x = qualifier ++ sep :: lastWord x := by
  obtain ⟨hsep, ⟨front, hcut, hrun⟩, hne, hdigit⟩ := h
  have hback : x.reverse.dropWhile isNameChar = sep :: front.reverse := by
    have hword : ∀ c ∈ (lastWord x).reverse, isNameChar c = true := fun c hc =>
      (endsInRun_lastWord x).all c (List.mem_reverse.1 hc)
    have hstop : ∀ c ∈ (sep :: front.reverse).head?, isNameChar c = false := by
      simpa using not_isNameChar_of_isSeparator hsep
    conv => lhs; rw [hcut, List.reverse_append, List.reverse_cons, List.append_assoc, List.singleton_append]
    exact dropWhile_of_head? hword hstop
  have hqualifier : (front.reverse.takeWhile isNameChar).reverse = qualifier := hrun.eq_lastWord.symm
  unfold typedName
  rw [hback]
  dsimp only
  rw [hqualifier, hsep, any_isNameStart hne hrun.all hdigit]
  rfl

theorem typedName_of_not_qualified (h : ¬ ∃ qualifier sep, Qualified x (lastWord x) qualifier sep) :
    typedName x = lastWord x := by
  unfold typedName
  split
  · next sep rest hback =>
    dsimp only
    split
    · next hboth =>
      obtain ⟨hsep, hstart⟩ := Bool.and_eq_true_iff.1 hboth
      refine absurd ⟨_, sep, hsep, ⟨rest.reverse, ?_, endsInRun_lastWord _⟩, ?_, ?_⟩ h
      · have hwhole := congrArg List.reverse (List.takeWhile_append_dropWhile (p := isNameChar) (l := x.reverse))
        rw [hback] at hwhole
        simpa [lastWord, List.rtakeWhile] using hwhole.symm
      · rw [lastWord, List.rtakeWhile, List.reverse_reverse]
        rintro hnil
        rw [hnil] at hstart
        cases hstart
      · rw [lastWord, List.rtakeWhile, List.reverse_reverse]
        exact not_beginsWithDigit_of_isNameStart hstart
    · rfl
  · rfl

/-- The word is what has been typed behind the last separator. -/
theorem endsInRun_typedName (x : List Char) : EndsInRun (!Registry.isSeparator ·) (typedName x) (lastWord x) := by
  have hall : ∀ c ∈ lastWord x, (!Registry.isSeparator c) = true := fun c hc => by
    rw [not_isSeparator_of_mem_lastWord hc]
    rfl
  obtain ⟨qualifier, sep, hsep, htyped⟩ | htyped := typedName_cases x
  · have hstop : ∀ c ∈ (qualifier ++ [sep]).getLast?, (!Registry.isSeparator c) = false := by simp [hsep]
    exact ⟨⟨qualifier ++ [sep], by simp [htyped], hstop⟩, hall⟩
  · exact ⟨⟨[], by rw [htyped, List.nil_append], by simp⟩, hall⟩

theorem typedName_suffix (x : List Char) : typedName x <:+ x := by
  by_cases hqualified : ∃ qualifier sep, Qualified x (lastWord x) qualifier sep
  · obtain ⟨qualifier, sep, h⟩ := hqualified
    obtain ⟨front, hcut, ⟨before, hfront, -⟩, -⟩ := h.cut
    refine ⟨before, ?_⟩
    rw [typedName_of_qualified h]
    conv => rhs; rw [hcut, hfront]
    simp
  · obtain ⟨front, hcut, -⟩ := (endsInRun_lastWord x).cut
    exact ⟨front, by rw [typedName_of_not_qualified hqualified, ← hcut]⟩

end Scriptorium.Editor

namespace Scriptorium.Assist

open Editor Text

/-! ## Labels -/

/-- Every label begins with the word. -/
theorem word_prefix_label {reg : Registry} {x : List Char} {c : Completion}
    (hc : c ∈ Completion.items reg (typedName x)) :
    lastWord x <+: c.label.toList := by
  rw [Completion.items_eq_ranked] at hc
  have hmem := Completion.mem_of_mem_ranked hc
  obtain ⟨qualifier, hsplit⟩ | ⟨hsplit, htyped⟩ := splitQualifier?_typedName x <;> rw [hsplit] at hmem
  · obtain ⟨m, hm, rfl⟩ := List.mem_map.1 hmem
    exact Completion.extends?_iff.1 (List.mem_filter.1 hm).2
  · rw [htyped] at hmem
    exact (Completion.mem_label_plainCandidates.1 (List.mem_map_of_mem hmem)).1

/-- Where something can be completed, it is the whole name at the cursor, with the name that qualifies it if there is
one. Every label begins with the word at the cursor. Cutting the word off the label does not fail, and putting the
label in place of the word only inserts, at the cursor, what the cut leaves. -/
theorem completion_inserts {cs typed : List Char} {cursor : Nat} (h : typedAt? cs cursor = some typed)
    (reg : Registry) :
    let place := snap cursor cs
    let x := take place cs
    ∃ word, EndsInRun isNameChar x word ∧ ¬ BeginsWithDigit word ∧
      typed <:+ x ∧ EndsInRun (!Registry.isSeparator ·) typed word ∧
      (∀ qualifier sep, Qualified x word qualifier sep → typed = qualifier ++ sep :: word) ∧
      ((¬ ∃ qualifier sep, Qualified x word qualifier sep) → typed = word) ∧
      ∀ c ∈ Completion.items reg typed, ∃ rest, c.label.toList = word ++ rest ∧
        back? (size word) c.label.toList = some rest ∧
        remainder c typed = rest ++ (if c.kind = .method then ['(', ')'] else []) ∧
        splice? (place - size word) place c.label.toList cs = some (x ++ rest ++ drop place cs) := by
  obtain ⟨x, y, rfl, hplace⟩ := boundary_snap cursor cs
  have hsnap : typedAt? (x ++ y) cursor = typedAt? (x ++ y) (size x) := by
    unfold typedAt?
    rw [snap_size_append, ← hplace]
  rw [hsnap, typedAt?_append] at h
  split at h
  · cases h
  next hfree =>
  obtain rfl := Option.some.inj h
  simp only [← hplace, take_size_append, drop_size_append]
  refine ⟨lastWord x, endsInRun_lastWord x, fun hdigit => hfree (.inr (hdigit.append y)), typedName_suffix x,
    endsInRun_typedName x, fun qualifier sep => typedName_of_qualified, typedName_of_not_qualified, fun c hc => ?_⟩
  obtain ⟨rest, hlabel⟩ := word_prefix_label hc
  obtain ⟨front, hcut, -⟩ := (endsInRun_lastWord x).cut
  have hsize : size x - size (lastWord x) = size front := by
    have hsum := congrArg size hcut
    rw [size_append] at hsum
    omega
  refine ⟨rest, hlabel.symm, ?_, ?_, ?_⟩
  · rw [← hlabel, back?_eq_some (boundary_size_append _ _), drop_size_append]
  · rw [remainder_typedName, ← hlabel, List.drop_left]
  · have hstart : x ++ y = front ++ (lastWord x ++ y) := by
      conv => lhs; rw [hcut, List.append_assoc]
    have hboundary : Boundary (size front) (x ++ y) := hstart ▸ boundary_size_append _ _
    rw [hsize, splice?_eq_some (by omega) hboundary (boundary_size_append _ _), drop_size_append, ← hlabel]
    conv => lhs; rw [hstart, take_size_append, ← List.append_assoc, ← hcut]

/-- A member of a standard namespace, completed with the cursor within the character behind it. -/
theorem completion_inserts_member :
    let cs := "host.loé".toList
    let typed := "host.lo".toList
    let reg := RegistryBuilder.standard.build
    typedAt? cs 8 = some typed ∧
      ∃ c ∈ Completion.items reg typed, c.label = "log" ∧
        splice? 5 7 c.label.toList cs = some "host.logé".toList := by
  intro cs typed reg
  have htyped : typedAt? cs 8 = some typed := by
    have hclear : (typed ++ ['é']).all (· ∉ ['"', '\'', '[', '-']) := rfl
    have hplain : PlainText (typed ++ ['é']) :=
      (IsUnmarked.of_all fun c hc => of_decide_eq_true (List.all_eq_true.1 hclear c hc)).plain
    have happend := typedAt?_append typed ['é']
    rwa [hplain.is_code, if_neg (by decide)] at happend
  have hlisted : "log" ∈ (Completion.items reg typed).map (·.label) := by
    have hqualifies : Completion.Qualifies "host".toList "lo".toList typed :=
      ⟨'.', rfl, rfl, by simp [Registry.isSeparator], by simp [Registry.isSeparator]⟩
    have hranked := Completion.items_ranked {} (Registry.standardNamespaces.map .register) typed
    have hperm := hranked.members _ _ hqualifies Registry.hostNamespace List.mem_cons_self rfl
    have hmembers : "log" ∈ ((Registry.hostNamespace.members.filter ("lo".toList <+: ·.name.toList)).map
        Completion.ofMember).map (·.label) := by decide
    exact (hperm.map (·.label)).mem_iff.2 hmembers
  obtain ⟨c, hc, hlabel⟩ := List.mem_map.1 hlisted
  obtain ⟨word, hword, -, -, -, -, -, hall⟩ := completion_inserts htyped reg
  obtain rfl : word = "lo".toList := hword.eq_lastWord
  obtain ⟨rest, hcut, -, -, hsplice⟩ := hall c hc
  rw [hlabel] at hcut
  obtain rfl : ['g'] = rest := (List.cons.inj (List.cons.inj hcut).2).2
  exact ⟨htyped, c, hc, hlabel, hsplice⟩

end Scriptorium.Assist
