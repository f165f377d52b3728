import Scriptorium.Proofs.Json.Scalars
import Scriptorium.Proofs.Text.Trim

/-!
# Reading what was written

A value without floats is read back from its text over several lines: `Exact.read?_pretty`. The reader stops
where the value ends (`Exact.readsBack`), by induction on the value, and as much fuel as the text has
characters is enough.
-/

namespace Scriptorium.Json

open Text

variable {cs rest : List Char} {c : Char} {level : Nat} {v : Json}

/-- A value whose text says it whole: there are no floats in it and nothing garbled. -/
inductive Exact : Json → Prop where
  | null : Exact .null
  | bool (b : Bool) : Exact (.bool b)
  | int (n : Int) : Exact (.int n)
  | str (s : String) : Exact (.str s)
  | arr {items : List Json} (exact_items : ∀ v ∈ items, Exact v) : Exact (.arr items)
  | obj {members : List (String × Json)} (exact_members : ∀ m ∈ members, Exact m.2) : Exact (.obj members)

/-! ## Gaps -/

theorem skipGap_append {gap : List Char} (hgap : ∀ c ∈ gap, isGap c = true) (cs : List Char) :
    skipGap (gap ++ cs) = skipGap cs := List.dropWhile_append_of_pos hgap

theorem skipGap_cons (h : isGap c = false) (cs : List Char) : skipGap (c :: cs) = c :: cs :=
  List.dropWhile_cons_of_neg (by simp [h])

theorem isGap_of_mem_indent (h : c ∈ indent level) : isGap c = true := by
  rw [List.eq_of_mem_replicate h]
  rfl

/-- A line end with the indentation of the next line. -/
def newLine (level : Nat) : List Char := '\n' :: indent level

theorem isGap_of_mem_newLine (h : c ∈ newLine level) : isGap c = true := by
  rcases List.mem_cons.1 h with rfl | h
  · rfl
  · exact isGap_of_mem_indent h

theorem readValue_gap {gap : List Char} (hgap : ∀ c ∈ gap, isGap c = true) (fuel : Nat) (cs : List Char) :
    readValue fuel (gap ++ cs) = readValue fuel cs := by
  cases fuel with
  | zero => rfl
  | succ fuel => rw [readValue, skipGap_append hgap, readValue]

theorem readItems_gap {gap : List Char} (hgap : ∀ c ∈ gap, isGap c = true) (fuel : Nat) (cs : List Char) :
    readItems fuel (gap ++ cs) = readItems fuel cs := by
  cases fuel with
  | zero => rfl
  | succ fuel => rw [readItems, readValue_gap hgap, readItems]

theorem readMembers_gap {gap : List Char} (hgap : ∀ c ∈ gap, isGap c = true) (fuel : Nat) (cs : List Char) :
    readMembers fuel (gap ++ cs) = readMembers fuel cs := by
  cases fuel with
  | zero => rfl
  | succ fuel => rw [readMembers, skipGap_append hgap, readMembers]

/-! ## Scalars -/

theorem readValue_quoted (s : String) (fuel : Nat) (rest : List Char) :
    readValue (fuel + 1) (quoted s ++ rest) = some (.str s, rest) := by
  rw [quoted, List.cons_append, List.append_assoc, List.singleton_append, readValue, skipGap_cons rfl]
  simp only [if_true, readParts_flatMap, Option.map_some, ofParts_partOf]

/-- No character that begins another token begins a number. -/
theorem ne_of_eq_or_isDigit (h : c = '-' ∨ c.isDigit = true) {x : Char} (hminus : x ≠ '-')
    (hdigit : x.isDigit = false) : c ≠ x := by
  rintro rfl
  rcases h with h | h
  · exact hminus h
  · rw [hdigit] at h
    cases h

theorem isBlank_of_eq_or_isDigit (h : c = '-' ∨ c.isDigit = true) : isBlank c = false := by
  rcases h with rfl | h
  · rfl
  · exact isBlank_of_isDigit h

theorem isGap_of_isBlank (h : isBlank c = false) : isGap c = false := by
  rw [← Bool.not_eq_true] at h ⊢
  intro hgap
  simp only [isGap, Bool.or_eq_true, beq_iff_eq, or_assoc] at hgap
  rcases hgap with rfl | rfl | rfl | rfl <;> exact h rfl

theorem readValue_int (n : Int) (fuel : Nat) (hrest : EndsNumber rest) :
    readValue (fuel + 1) ((toString n).toList ++ rest) = some (.int n, rest) := by
  have hread := readNumber?_toString n hrest
  obtain ⟨c, cs, htext, hc⟩ := exists_toString_eq_cons n
  rw [htext, List.cons_append] at hread ⊢
  rw [readValue, skipGap_cons (isGap_of_isBlank (isBlank_of_eq_or_isDigit hc))]
  dsimp only
  rw [if_neg (ne_of_eq_or_isDigit hc (by decide) (by decide)),
    if_neg (ne_of_eq_or_isDigit hc (by decide) (by decide)),
    if_neg (ne_of_eq_or_isDigit hc (by decide) (by decide)), if_pos hc, hread]

theorem readValue_scalar (hv : v = .null ∨ v = .bool true ∨ v = .bool false) (fuel : Nat) (rest : List Char) :
    readValue (fuel + 1) (scalarText v ++ rest) = some (v, rest) := by
  rcases hv with rfl | rfl | rfl <;> rfl

/-! ## Arrays and objects -/

theorem Exact.exists_pretty_eq_cons (h : Exact v) (level : Nat) :
    ∃ c cs, pretty level v = c :: cs ∧ isBlank c = false ∧ c ≠ ']' ∧ c ≠ '/' := by
  cases h with
  | null => exact ⟨_, _, rfl, rfl, by decide, by decide⟩
  | bool b => cases b <;> exact ⟨_, _, rfl, rfl, by decide, by decide⟩
  | int n =>
    obtain ⟨c, cs, htext, hc⟩ := exists_toString_eq_cons n
    exact ⟨c, cs, htext, isBlank_of_eq_or_isDigit hc, ne_of_eq_or_isDigit hc (by decide) (by decide),
      ne_of_eq_or_isDigit hc (by decide) (by decide)⟩
  | str s => exact ⟨_, _, rfl, rfl, by decide, by decide⟩
  | @arr items => cases items <;> exact ⟨_, _, rfl, rfl, by decide, by decide⟩
  | @obj members => cases members <;> exact ⟨_, _, rfl, rfl, by decide, by decide⟩

/-- The value is read back in front of anything that does not go on with a number. -/
def ReadsBack (level : Nat) (v : Json) : Prop :=
  ∀ fuel rest, (pretty level v).length ≤ fuel → EndsNumber rest →
    readValue fuel (pretty level v ++ rest) = some (v, rest)

/-- What closes an array or an object: perhaps gaps, and the bracket. -/
structure Closes (bracket : Char) (close rest : List Char) : Prop where
  endsNumber : EndsNumber close
  skipGap_eq : skipGap close = bracket :: rest

theorem endsNumber_cons (h : c.isDigit = false ∧ c ≠ '.' ∧ c ≠ 'e' ∧ c ≠ 'E') (cs : List Char) :
    EndsNumber (c :: cs) := by
  intro x hx
  obtain rfl := Option.some.inj hx
  exact h

theorem closes_newLine {bracket : Char} (h : isGap bracket = false) (level : Nat) (rest : List Char) :
    Closes bracket (newLine level ++ bracket :: rest) rest where
  endsNumber := endsNumber_cons (by decide) _
  skipGap_eq := by
    rw [skipGap_append fun c hc => isGap_of_mem_newLine hc, skipGap_cons h]

theorem skipGap_comma (cs : List Char) : skipGap (',' :: cs) = ',' :: cs := skipGap_cons rfl cs

theorem readItems_pretty {v : Json} {vs : List Json} (h : ∀ u ∈ v :: vs, ReadsBack level u)
    {close : List Char} (hclose : Closes ']' close rest) {fuel : Nat}
    (hfuel : (pretty level v ++ prettyItems level vs).length + 1 ≤ fuel) :
    readItems fuel (pretty level v ++ prettyItems level vs ++ close) = some (v :: vs, rest) := by
  induction vs generalizing v fuel with
  | nil =>
    obtain ⟨fuel, rfl⟩ : ∃ f, fuel = f + 1 := ⟨fuel - 1, by omega⟩
    rw [prettyItems, List.append_nil] at hfuel ⊢
    have hv := h v (by simp) fuel close (by omega) hclose.endsNumber
    rw [readItems, hv]
    simp only [hclose.skipGap_eq]
  | cons w ws ih =>
    obtain ⟨fuel, rfl⟩ : ∃ f, fuel = f + 1 := ⟨fuel - 1, by omega⟩
    rw [prettyItems] at hfuel ⊢
    simp only [List.length_append, List.length_cons] at hfuel
    have hv := h v (by simp) fuel
      (',' :: (newLine level ++ (pretty level w ++ prettyItems level ws ++ close))) (by omega)
      (endsNumber_cons (by decide) _)
    have hws : readItems fuel (pretty level w ++ prettyItems level ws ++ close) = some (w :: ws, rest) :=
      ih (fun u hu => h u (List.mem_cons_of_mem v hu)) (by rw [List.length_append]; omega)
    have htext :
        pretty level v ++ ',' :: '\n' :: (indent level ++ pretty level w ++ prettyItems level ws) ++ close =
        pretty level v ++ ',' :: (newLine level ++ (pretty level w ++ prettyItems level ws ++ close)) := by
      simp [newLine]
    rw [htext, readItems, hv]
    -- the comma is taken here, the new line by the next item
    simp only [skipGap_comma]
    rw [readItems_gap fun c hc => isGap_of_mem_newLine hc, hws, Option.map_some]

theorem skipGap_colon (cs : List Char) : skipGap (':' :: cs) = ':' :: cs := skipGap_cons rfl cs

theorem readValue_blank {fuel : Nat} {after : List Char}
    (hv : readValue fuel (pretty level v ++ after) = some (v, after)) :
    readValue fuel (' ' :: (pretty level v ++ after)) = some (v, after) := by
  rw [← hv]
  exact readValue_gap (by simp [isGap] : ∀ c ∈ [' '], isGap c = true) fuel _

/-- A member that others follow. -/
theorem readMembers_more (k : String) {fuel : Nat} {after more : List Char}
    (hv : readValue fuel (pretty level v ++ after) = some (v, after)) (hafter : skipGap after = ',' :: more) :
    readMembers (fuel + 1) (quoted k ++ ':' :: ' ' :: (pretty level v ++ after)) =
      (readMembers fuel more).map fun (ms, rest) => ((.str k, v) :: ms, rest) := by
  rw [quoted, List.cons_append, List.append_assoc, List.singleton_append, readMembers, skipGap_cons rfl]
  simp only [readParts_flatMap, skipGap_colon, readValue_blank hv, hafter, ofParts_partOf]

/-- The last member. -/
theorem readMembers_last (k : String) {fuel : Nat} {after : List Char}
    (hv : readValue fuel (pretty level v ++ after) = some (v, after))
    (hafter : skipGap after = '\x7d' :: rest) :
    readMembers (fuel + 1) (quoted k ++ ':' :: ' ' :: (pretty level v ++ after)) =
      some ([(.str k, v)], rest) := by
  rw [quoted, List.cons_append, List.append_assoc, List.singleton_append, readMembers, skipGap_cons rfl]
  simp only [readParts_flatMap, skipGap_colon, readValue_blank hv, hafter, ofParts_partOf]

theorem readMembers_pretty {k : String} {v : Json} {ms : List (String × Json)}
    (h : ∀ m ∈ (k, v) :: ms, ReadsBack level m.2) {close : List Char} (hclose : Closes '\x7d' close rest)
    {fuel : Nat} (hfuel : (pretty level v ++ prettyMembers level ms).length + 1 ≤ fuel) :
    readMembers fuel (quoted k ++ ':' :: ' ' :: (pretty level v ++ (prettyMembers level ms ++ close))) =
      some (((k, v) :: ms).map fun m => (.str m.1, m.2), rest) := by
  induction ms generalizing k v fuel with
  | nil =>
    obtain ⟨fuel, rfl⟩ : ∃ f, fuel = f + 1 := ⟨fuel - 1, by omega⟩
    rw [prettyMembers, List.append_nil] at hfuel
    have hv := h (k, v) (by simp) fuel close (by dsimp only; omega) hclose.endsNumber
    rw [prettyMembers, List.nil_append, readMembers_last k hv hclose.skipGap_eq]
    rfl
  | cons m ms ih =>
    obtain ⟨fuel, rfl⟩ : ∃ f, fuel = f + 1 := ⟨fuel - 1, by omega⟩
    obtain ⟨l, w⟩ := m
    have htext : prettyMembers level ((l, w) :: ms) ++ close = ',' :: (newLine level ++
        (quoted l ++ ':' :: ' ' :: (pretty level w ++ (prettyMembers level ms ++ close)))) := by
      simp [prettyMembers, newLine]
    rw [prettyMembers] at hfuel
    simp only [List.length_append, List.length_cons] at hfuel
    have hv := h (k, v) (by simp) fuel (prettyMembers level ((l, w) :: ms) ++ close) (by dsimp only; omega)
      (by rw [htext]; exact endsNumber_cons (by decide) _)
    have hms : readMembers fuel
        (quoted l ++ ':' :: ' ' :: (pretty level w ++ (prettyMembers level ms ++ close))) =
        some (((l, w) :: ms).map fun m => (.str m.1, m.2), rest) :=
      ih (fun m hm => h m (List.mem_cons_of_mem (k, v) hm)) (by rw [List.length_append]; omega)
    have hmore := readMembers_more k hv (by rw [htext, skipGap_comma])
    rw [hmore, readMembers_gap fun c hc => isGap_of_mem_newLine hc, hms]
    rfl

/-- Items that are all read back are read back as a list. -/
theorem mapM_map_of_readsBack {α β : Type} {read : β → Option α} {write : α → β}
    (h : ∀ a, read (write a) = some a) (as : List α) : (as.map write).mapM read = some as := by
  induction as with
  | nil => rfl
  | cons a as ih =>
    rw [List.map_cons, List.mapM_cons, h, ih]
    rfl

theorem ofMembers_str (members : List (String × Json)) :
    ofMembers (members.map fun m => (.str m.1, m.2)) = .obj members := by
  rw [ofMembers, mapM_map_of_readsBack]
  exact fun _ => rfl

/-- Some fuel is left for the parts of a value. -/
theorem Exact.readsBack_of_succ (h : Exact v)
    (hsucc : ∀ fuel rest, (pretty level v).length ≤ fuel + 1 → EndsNumber rest →
      readValue (fuel + 1) (pretty level v ++ rest) = some (v, rest)) : ReadsBack level v := by
  intro fuel rest hfuel hrest
  obtain ⟨c, cs, hhead, -⟩ := h.exists_pretty_eq_cons level
  have hpos : 0 < (pretty level v).length := by simp [hhead]
  obtain ⟨fuel, rfl⟩ : ∃ f, fuel = f + 1 := ⟨fuel - 1, by omega⟩
  exact hsucc fuel rest hfuel hrest

theorem readValue_arr_cons {v : Json} {vs : List Json} (hv : Exact v)
    (h : ∀ u ∈ v :: vs, ReadsBack (level + 1) u) {fuel : Nat}
    (hfuel : (pretty level (.arr (v :: vs))).length ≤ fuel + 1) (rest : List Char) :
    readValue (fuel + 1) (pretty level (.arr (v :: vs)) ++ rest) = some (.arr (v :: vs), rest) := by
  have htext : pretty level (.arr (v :: vs)) ++ rest = '[' :: (newLine (level + 1) ++
      (pretty (level + 1) v ++ prettyItems (level + 1) vs ++ (newLine level ++ ']' :: rest))) := by
    simp [pretty, newLine]
  rw [pretty] at hfuel
  simp only [List.length_append, List.length_cons] at hfuel
  have hitems : readItems fuel
      (pretty (level + 1) v ++ prettyItems (level + 1) vs ++ (newLine level ++ ']' :: rest)) =
      some (v :: vs, rest) :=
    readItems_pretty h (closes_newLine rfl level rest) (by rw [List.length_append]; omega)
  obtain ⟨c, cs, hhead, hblank, hclose, -⟩ := hv.exists_pretty_eq_cons (level + 1)
  rw [hhead, List.cons_append, List.cons_append] at hitems
  rw [htext, hhead, List.cons_append, List.cons_append, readValue, skipGap_cons rfl]
  dsimp only
  rw [if_neg (by decide), if_pos rfl, skipGap_append fun c hc => isGap_of_mem_newLine hc,
    skipGap_cons (isGap_of_isBlank hblank)]
  -- no value begins with the bracket that would end an empty array
  split
  next heq => exact absurd (List.cons.inj heq).1 hclose
  next => rw [hitems]; rfl

theorem readValue_obj_cons {k : String} {v : Json} {ms : List (String × Json)}
    (h : ∀ m ∈ (k, v) :: ms, ReadsBack (level + 1) m.2)
    {fuel : Nat} (hfuel : (pretty level (.obj ((k, v) :: ms))).length ≤ fuel + 1) (rest : List Char) :
    readValue (fuel + 1) (pretty level (.obj ((k, v) :: ms)) ++ rest) = some (.obj ((k, v) :: ms), rest) := by
  have htext : pretty level (.obj ((k, v) :: ms)) ++ rest = '\x7b' :: (newLine (level + 1) ++
      (quoted k ++ ':' :: ' ' :: (pretty (level + 1) v ++ (prettyMembers (level + 1) ms ++
        (newLine level ++ '\x7d' :: rest))))) := by
    simp [pretty, newLine]
  rw [pretty] at hfuel
  simp only [List.length_append, List.length_cons] at hfuel
  have hmembers : readMembers fuel (quoted k ++ ':' :: ' ' :: (pretty (level + 1) v ++
      (prettyMembers (level + 1) ms ++ (newLine level ++ '\x7d' :: rest)))) =
        some (((k, v) :: ms).map fun m => (.str m.1, m.2), rest) :=
    readMembers_pretty h (closes_newLine rfl level rest) (by rw [List.length_append]; omega)
  rw [quoted, List.cons_append] at hmembers
  rw [htext, readValue, skipGap_cons rfl]
  dsimp only
  rw [if_neg (by decide), if_neg (by decide), if_pos rfl,
    skipGap_append fun c hc => isGap_of_mem_newLine hc, quoted, List.cons_append, skipGap_cons rfl]
  split
  next heq => cases heq
  next => rw [hmembers, Option.map_some, ofMembers_str]

/-- Every exact value is read back, wherever it stands in a text. -/
theorem Exact.readsBack (h : Exact v) (level : Nat) : ReadsBack level v := by
  induction h generalizing level with
  | null => exact Exact.null.readsBack_of_succ fun fuel rest _ _ => readValue_scalar (.inl rfl) fuel rest
  | bool b =>
    refine (Exact.bool b).readsBack_of_succ fun fuel rest _ _ => readValue_scalar ?_ fuel rest
    cases b
    · exact .inr (.inr rfl)
    · exact .inr (.inl rfl)
  | int n => exact (Exact.int n).readsBack_of_succ fun fuel rest _ hrest => readValue_int n fuel hrest
  | str s => exact (Exact.str s).readsBack_of_succ fun fuel rest _ _ => readValue_quoted s fuel rest
  | @arr items exact_items ih =>
    refine (Exact.arr exact_items).readsBack_of_succ fun fuel rest hfuel _ => ?_
    cases items with
    | nil => rfl
    | cons v vs =>
      exact readValue_arr_cons (exact_items v (by simp)) (fun u hu => ih u hu (level + 1)) hfuel rest
  | @obj members exact_members ih =>
    refine (Exact.obj exact_members).readsBack_of_succ fun fuel rest hfuel _ => ?_
    cases members with
    | nil => rfl
    | cons m ms => exact readValue_obj_cons (fun m hm => ih m hm (level + 1)) hfuel rest

/-- Writing and reading give the value back. -/
theorem Exact.read?_pretty (h : Exact v) : read? (pretty 0 v) = some v := by
  have hread := h.readsBack 0 (2 * (pretty 0 v).length + 1) [] (by omega) (by simp [EndsNumber])
  rw [List.append_nil] at hread
  rw [read?, hread]
  rfl

end Scriptorium.Json
