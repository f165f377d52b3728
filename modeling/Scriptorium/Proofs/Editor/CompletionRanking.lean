import Mathlib.Data.Prod.Lex
import Scriptorium.Editor.Completion
import Scriptorium.Proofs.Registry.Building
import Scriptorium.Proofs.Text.Runs
import Scriptorium.Proofs.Text.Utf8

/-!
# Completion lists

What is listed for a typed text, and in which order (`items_ranked`). The list is made in two steps: the candidates
are sorted, and of each label the first one is kept. As the order on groups, ranks and labels is linear, what is kept
is the least of its label (`le_of_mem_ranked`), and the list is strictly ascending.
-/

namespace Scriptorium.Editor

open Text

/-- The place of a group in the list. -/
def CompletionGroup.position : CompletionGroup → Nat
  | .api => 0
  | .keyword => 1

namespace Completion

variable {a b c d : Completion} {cs : List Completion} {seen : List String} {label : String}
  {typed qualifier name : List Char} {sep : Char}

/-! ## The order -/

/-- Candidates of the registry stand before words of the language; in a group, lower ranks stand first, and of one
rank the labels are in the order of their bytes. -/
def Precedes (a b : Completion) : Prop :=
  (a.group = .api ∧ b.group = .keyword) ∨
    (a.group = b.group ∧ (a.rank < b.rank ∨ (a.rank = b.rank ∧ utf8 a.label.toList < utf8 b.label.toList)))

/-- What candidates are sorted by. -/
def sortKey (c : Completion) : ℕ ×ₗ ℕ ×ₗ List Char := toLex (c.group.position, toLex (c.rank, c.label.toList))

theorem sortKey_lt_iff : sortKey a < sortKey b ↔ Precedes a b := by
  simp only [sortKey, Precedes, Prod.Lex.toLex_lt_toLex, utf8_lt_iff]
  cases a.group <;> cases b.group <;> simp [CompletionGroup.position]

theorem sortKey_le_iff : sortKey a ≤ sortKey b ↔ listedBefore a b = true := by
  simp only [sortKey, listedBefore, Prod.Lex.toLex_le_toLex]
  cases a.group <;> cases b.group <;>
    simp only [CompletionGroup.position, Bool.or_eq_true, Bool.and_eq_true, Bool.not_eq_true',
      decide_lt_eq_false_iff, decide_eq_true_eq, beq_iff_eq] <;> simp

/-- Labels decide at last. -/
theorem sortKey_lt (h : sortKey a ≤ sortKey b) (hlabel : a.label ≠ b.label) : sortKey a < sortKey b := by
  refine lt_of_le_of_ne h fun heq => hlabel ?_
  simp only [sortKey, EmbeddingLike.apply_eq_iff_eq, Prod.mk.injEq, String.toList_inj] at heq
  exact heq.2.2

/-! ## The first of each label -/

theorem keepFirst_sublist (seen : List String) (cs : List Completion) : (keepFirst seen cs).Sublist cs := by
  fun_induction keepFirst seen cs with
  | case1 => exact List.Sublist.refl _
  | case2 seen c cs hseen ih => exact ih.cons c
  | case3 seen c cs hnew ih => exact ih.cons_cons c

/-- The labels that are kept are those that have not been seen. -/
theorem mem_label_keepFirst :
    label ∈ (keepFirst seen cs).map (·.label) ↔ label ∉ seen ∧ label ∈ cs.map (·.label) := by
  fun_induction keepFirst seen cs with
  | case1 => simp
  | case2 seen c cs hseen ih =>
    rw [ih, List.map_cons, List.mem_cons]
    refine and_congr_right fun hnot => (or_iff_right ?_).symm
    rintro rfl
    exact hnot hseen
  | case3 seen c cs hnew ih =>
    rw [List.map_cons, List.map_cons, List.mem_cons, List.mem_cons, ih, List.mem_cons, not_or]
    by_cases hc : label = c.label
    · simp [hc, hnew]
    · simp [hc]

theorem keepFirst_nodup (seen : List String) (cs : List Completion) : ((keepFirst seen cs).map (·.label)).Nodup := by
  fun_induction keepFirst seen cs with
  | case1 => exact List.nodup_nil
  | case2 seen c cs hseen ih => exact ih
  | case3 seen c cs hnew ih =>
    refine List.nodup_cons.2 ⟨fun hmem => ?_, ih⟩
    exact (mem_label_keepFirst.1 hmem).1 List.mem_cons_self

theorem keepFirst_of_nodup (h : (cs.map (·.label)).Nodup) (hseen : ∀ c ∈ cs, c.label ∉ seen) :
    keepFirst seen cs = cs := by
  fun_induction keepFirst seen cs with
  | case1 => rfl
  | case2 seen c cs hold ih => exact absurd hold (hseen c List.mem_cons_self)
  | case3 seen c cs hnew ih =>
    rw [List.map_cons, List.nodup_cons] at h
    rw [ih h.2]
    intro d hd hmem
    rcases List.mem_cons.1 hmem with heq | hmem
    · exact h.1 (heq ▸ List.mem_map_of_mem hd)
    · exact hseen d (List.mem_cons_of_mem _ hd) hmem

/-- What is kept of a list in order comes before all others of its label. -/
theorem keepFirst_least {R : Completion → Completion → Prop} (h : cs.Pairwise R) (hc : c ∈ keepFirst seen cs)
    (hd : d ∈ cs) (hlabel : d.label = c.label) : c = d ∨ R c d := by
  have hfresh : c.label ∉ seen := (mem_label_keepFirst.1 (List.mem_map_of_mem hc)).1
  fun_induction keepFirst seen cs with
  | case1 => cases hd
  | case2 seen e cs hseen ih =>
    rcases List.mem_cons.1 hd with rfl | hd
    · exact absurd (hlabel ▸ hseen) hfresh
    · exact ih h.of_cons hc hd hfresh
  | case3 seen e cs hnew ih =>
    rw [List.pairwise_cons] at h
    rcases List.mem_cons.1 hc with rfl | hc
    · exact (List.mem_cons.1 hd).imp Eq.symm (h.1 d)
    · have hother := (mem_label_keepFirst.1 (List.mem_map_of_mem hc)).1
      rcases List.mem_cons.1 hd with rfl | hd
      · exact absurd (hlabel ▸ List.mem_cons_self) hother
      · exact ih h.2 hc hd hother

/-! ## Ranked candidates -/

/-- The candidates in order, one of each label. -/
def ranked (cs : List Completion) : List Completion := keepFirst [] (cs.mergeSort listedBefore)

theorem ranked_nil : ranked [] = [] := by
  rw [ranked, List.mergeSort_nil, keepFirst]

theorem items_eq_ranked (r : Registry) (typed : List Char) :
    items r typed = ranked (match splitQualifier? typed with
      | some (qualifier, typed) => memberCandidates r qualifier typed
      | none => plainCandidates r typed) := rfl

theorem sorted_mergeSort (cs : List Completion) :
    (cs.mergeSort listedBefore).Pairwise fun a b => sortKey a ≤ sortKey b :=
  pairwise_mergeSort_key (fun _ _ => sortKey_le_iff) cs

theorem ranked_nodup (cs : List Completion) : ((ranked cs).map (·.label)).Nodup := keepFirst_nodup [] _

theorem pairwise_ranked (cs : List Completion) : (ranked cs).Pairwise Precedes := by
  have hsorted := (sorted_mergeSort cs).sublist (keepFirst_sublist [] _)
  have hdistinct := List.pairwise_map.1 (ranked_nodup cs)
  refine (hsorted.and hdistinct).imp ?_
  rintro a b ⟨hle, hne⟩
  exact sortKey_lt_iff.1 (sortKey_lt hle hne)

theorem mem_of_mem_ranked (h : c ∈ ranked cs) : c ∈ cs :=
  List.mem_mergeSort.1 ((keepFirst_sublist [] _).subset h)

theorem mem_label_ranked : label ∈ (ranked cs).map (·.label) ↔ label ∈ cs.map (·.label) := by
  rw [ranked, mem_label_keepFirst, and_iff_right List.not_mem_nil]
  exact ((List.mergeSort_perm cs listedBefore).map _).mem_iff

theorem le_of_mem_ranked (hc : c ∈ ranked cs) (hd : d ∈ cs) (hlabel : d.label = c.label) :
    sortKey c ≤ sortKey d := by
  rcases keepFirst_least (sorted_mergeSort cs) hc (List.mem_mergeSort.2 hd) hlabel with rfl | hle
  · exact le_refl _
  · exact hle

/-- Where the labels are distinct already, nothing is lost. -/
theorem ranked_perm (h : (cs.map (·.label)).Nodup) : (ranked cs).Perm cs := by
  have hperm := List.mergeSort_perm cs listedBefore
  rw [ranked, keepFirst_of_nodup ((hperm.map _).nodup_iff.2 h) fun _ _ => List.not_mem_nil]
  exact hperm

/-! ## What has been typed -/

theorem extends?_iff : extends? typed label = true ↔ typed <+: label.toList := List.isPrefixOf_iff_prefix

/-- A typed text is cut at its last separator. -/
theorem splitQualifier?_append (hsep : Registry.isSeparator sep = true)
    (hname : ∀ c ∈ name, Registry.isSeparator c = false) :
    splitQualifier? (qualifier ++ sep :: name) = some (qualifier, name) := by
  have hback : (qualifier ++ sep :: name).reverse = name.reverse ++ sep :: qualifier.reverse := by simp
  have hname' : ∀ c ∈ name.reverse, (!Registry.isSeparator c) = true := by simpa using hname
  have hsep' : ∀ c ∈ (sep :: qualifier.reverse).head?, (!Registry.isSeparator c) = false := by simpa using hsep
  simp only [splitQualifier?, hback, takeWhile_of_head? hname' hsep', dropWhile_of_head? hname' hsep',
    List.reverse_reverse]

theorem splitQualifier?_of_all (h : ∀ c ∈ typed, Registry.isSeparator c = false) :
    splitQualifier? typed = none := by
  have hall : typed.reverse.dropWhile (!Registry.isSeparator ·) = [] := by
    rw [List.dropWhile_eq_nil_iff]
    simpa using h
  simp only [splitQualifier?, hall]

/-! ## Candidates -/

variable {r : Registry}

theorem mem_label_plainCandidates :
    label ∈ (plainCandidates r typed).map (·.label) ↔
      typed <+: label.toList ∧
        ((∃ ns ∈ r.enabledNamespaces, ns.name = label) ∨ label ∈ keywords ∨ label ∈ builtinFunctions) := by
  have hkeywords : ((keywords.filter (extends? typed)).map ofKeyword).map (·.label) =
      keywords.filter (extends? typed) := by
    rw [List.map_map]
    exact List.map_id _
  have hbuiltins : ((builtinFunctions.filter (extends? typed)).map ofBuiltin).map (·.label) =
      builtinFunctions.filter (extends? typed) := by
    rw [List.map_map]
    exact List.map_id _
  have hnamespaces : label ∈ ((r.enabledNamespaces.filter (extends? typed ·.name)).map ofNamespace).map (·.label) ↔
      typed <+: label.toList ∧ ∃ ns ∈ r.enabledNamespaces, ns.name = label := by
    rw [List.map_map, List.mem_map]
    constructor
    · rintro ⟨ns, hns, rfl⟩
      obtain ⟨hmem, htyped⟩ := List.mem_filter.1 hns
      exact ⟨extends?_iff.1 htyped, ns, hmem, rfl⟩
    · rintro ⟨htyped, ns, hmem, rfl⟩
      exact ⟨ns, List.mem_filter.2 ⟨hmem, extends?_iff.2 htyped⟩, rfl⟩
  rw [plainCandidates, List.map_append, List.map_append, List.mem_append, List.mem_append, hkeywords, hbuiltins,
    hnamespaces, List.mem_filter, List.mem_filter, extends?_iff, and_comm (a := label ∈ keywords),
    and_comm (a := label ∈ builtinFunctions), ← and_or_left, ← and_or_left, or_assoc]

theorem cases_of_mem_plainCandidates (h : c ∈ plainCandidates r typed) :
    (∃ ns ∈ r.enabledNamespaces, c = ofNamespace ns) ∨ (∃ word ∈ keywords, c = ofKeyword word) ∨
      ∃ name ∈ builtinFunctions, c = ofBuiltin name := by
  rw [plainCandidates, List.mem_append, List.mem_append] at h
  rcases h with (h | h) | h
  · obtain ⟨ns, hns, rfl⟩ := List.mem_map.1 h
    exact .inl ⟨ns, List.mem_of_mem_filter hns, rfl⟩
  · obtain ⟨word, hword, rfl⟩ := List.mem_map.1 h
    exact .inr (.inl ⟨word, List.mem_of_mem_filter hword, rfl⟩)
  · obtain ⟨name, hname, rfl⟩ := List.mem_map.1 h
    exact .inr (.inr ⟨name, List.mem_of_mem_filter hname, rfl⟩)

theorem group_of_sortKey_le (h : sortKey a ≤ sortKey b) (hb : b.group = .api) : a.group = .api := by
  rw [sortKey_le_iff, listedBefore, hb] at h
  cases ha : a.group with
  | api => rfl
  | keyword =>
    rw [ha] at h
    cases h

/-- Of the candidates of one label, the namespace is listed. -/
theorem eq_ofNamespace (hnames : (r.enabledNamespaces.map (·.name)).Nodup) {ns : Namespace}
    (hns : ns ∈ r.enabledNamespaces) (hc : c ∈ ranked (plainCandidates r typed)) (hlabel : c.label = ns.name) :
    c = ofNamespace ns := by
  have htyped : typed <+: ns.name.toList := by
    rw [← hlabel]
    exact (mem_label_plainCandidates.1 (List.mem_map_of_mem (mem_of_mem_ranked hc))).1
  have hcandidate : ofNamespace ns ∈ plainCandidates r typed := by
    refine List.mem_append_left _ (List.mem_append_left _ (List.mem_map_of_mem ?_))
    exact List.mem_filter.2 ⟨hns, extends?_iff.2 htyped⟩
  have hgroup : c.group = .api := group_of_sortKey_le (le_of_mem_ranked hc hcandidate hlabel.symm) rfl
  rcases cases_of_mem_plainCandidates (mem_of_mem_ranked hc) with ⟨other, hother, rfl⟩ | ⟨word, -, rfl⟩ | ⟨name, -, rfl⟩
  · rw [List.inj_on_of_nodup_map hnames hother hns hlabel]
  · cases hgroup
  · cases hgroup

/-- After a qualifier the candidates are the members of its namespace, each under a label of its own. -/
theorem ranked_memberCandidates_perm {ns : Namespace} (hmembers : (ns.members.map (·.name)).Nodup)
    (hlookup : r.lookup (String.ofList qualifier) = ns.listed) :
    (ranked (memberCandidates r qualifier name)).Perm
      ((ns.members.filter (name <+: ·.name.toList)).map ofMember) := by
  have hfilter : ns.members.filter (name <+: ·.name.toList) = ns.members.filter (extends? name ·.name) :=
    List.filter_congr fun m _ => by rw [Bool.eq_iff_iff, extends?_iff, decide_eq_true_eq]
  have hperm : (memberCandidates r qualifier name).Perm
      ((ns.members.filter (name <+: ·.name.toList)).map ofMember) := by
    rw [memberCandidates, hlookup, hfilter]
    exact (ns.listed_perm.filter _).map _
  refine (ranked_perm ?_).trans hperm
  rw [(hperm.map _).nodup_iff, List.map_map]
  exact hmembers.sublist (List.filter_sublist.map _)

/-! ## Completion lists -/

/-- The text is a qualifier, which ends in no separator, and after one more separator the beginning of a name. -/
def Qualifies (qualifier name typed : List Char) : Prop :=
  ∃ sep, typed = qualifier ++ sep :: name ∧ Registry.isSeparator sep = true ∧
    (∀ c ∈ name, Registry.isSeparator c = false) ∧ ∀ c ∈ qualifier.getLast?, Registry.isSeparator c = false

/-- The text is the beginning of a name without a qualifier. -/
def Plain (typed : List Char) : Prop := ∀ c ∈ typed, Registry.isSeparator c = false

/-- What a registry makes of a typed text. -/
structure ListsRanked (r : Registry) (typed : List Char) : Prop where
  /-- Nothing is known of a qualifier that names no enabled namespace. -/
  unknown : ∀ qualifier name, Qualifies qualifier name typed →
    (∀ ns ∈ r.enabledNamespaces, ns.name.toList ≠ qualifier) → items r typed = []
  members : ∀ qualifier name, Qualifies qualifier name typed →
    ∀ ns ∈ r.enabledNamespaces, ns.name.toList = qualifier →
      (items r typed).Perm ((ns.members.filter (name <+: ·.name.toList)).map ofMember)
  /-- Without a qualifier the enabled namespaces are listed and the words of the language. -/
  words : Plain typed → ∀ label, label ∈ labels r typed ↔
    typed <+: label.toList ∧
      ((∃ ns ∈ r.enabledNamespaces, ns.name = label) ∨ label ∈ keywords ∨ label ∈ builtinFunctions)
  kinds : Plain typed → ∀ c ∈ items r typed,
    (∃ ns ∈ r.enabledNamespaces, c = ofNamespace ns) ∨ (∃ word ∈ keywords, c = ofKeyword word) ∨
      ∃ name ∈ builtinFunctions, c = ofBuiltin name
  /-- A word that names a namespace too is listed as the namespace. -/
  namespaces : Plain typed → ∀ ns ∈ r.enabledNamespaces, ∀ c ∈ items r typed, c.label = ns.name → c = ofNamespace ns
  ordered : (items r typed).Pairwise Precedes
  distinct : (labels r typed).Nodup

/-- Every registry that calls can make of an empty builder lists the ranked candidates and nothing else. -/
theorem items_ranked (facts : HostFacts) (calls : List RegistryBuilder.Call) (typed : List Char) :
    ListsRanked (RegistryBuilder.run facts calls).build typed where
  unknown := by
    rintro qualifier name ⟨sep, rfl, hsep, hname, hlast⟩ hnone
    have hlookup : (RegistryBuilder.run facts calls).build.lookup (String.ofList qualifier) = [] := by
      rw [Registry.lookup_of_getLast? (by rwa [String.toList_ofList])]
      cases hfound : (RegistryBuilder.run facts calls).build.enabledNamespace? (String.ofList qualifier) with
      | none => rfl
      | some ns =>
        obtain ⟨hns, hqualifier⟩ := (RegistryBuilder.enabledNamespace?_build (RegistryBuilder.names_nodup _ _)).1 hfound
        exact absurd (by rw [hqualifier, String.toList_ofList]) (hnone ns hns)
    rw [items_eq_ranked, splitQualifier?_append hsep hname]
    dsimp only
    rw [memberCandidates, hlookup]
    exact ranked_nil
  members := by
    rintro qualifier name ⟨sep, rfl, hsep, hname, hlast⟩ ns hns rfl
    rw [items_eq_ranked, splitQualifier?_append hsep hname]
    refine ranked_memberCandidates_perm (RegistryBuilder.members_nodup _ _ ns (List.mem_of_mem_filter hns)) ?_
    rw [Registry.lookup_of_getLast? (by rwa [String.toList_ofList]), String.ofList_toList,
      (RegistryBuilder.enabledNamespace?_build (RegistryBuilder.names_nodup _ _)).2 ⟨hns, rfl⟩]
    rfl
  words hplain label := by
    rw [labels, items_eq_ranked, splitQualifier?_of_all hplain, mem_label_ranked, mem_label_plainCandidates]
  kinds hplain c hc := by
    rw [items_eq_ranked, splitQualifier?_of_all hplain] at hc
    exact cases_of_mem_plainCandidates (mem_of_mem_ranked hc)
  namespaces hplain ns hns c hc hlabel := by
    rw [items_eq_ranked, splitQualifier?_of_all hplain] at hc
    refine eq_ofNamespace ?_ hns hc hlabel
    exact (RegistryBuilder.names_nodup facts calls).sublist (List.filter_sublist.map _)
  ordered := pairwise_ranked _
  distinct := ranked_nodup _

/-- All reserved words are offered. -/
example : keywords.length = 22 := rfl

end Completion

end Scriptorium.Editor
