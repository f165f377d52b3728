import Scriptorium.Proofs.Document.ActiveDocument

/-!
# Gates and the current document

What the changes of a desk do to the gates of its documents, and to which document is the current one. Only an
activation makes another document current: whatever else is done, the current document stays the one that it was, or
there is none from then on (`Fades.number?`).
-/

namespace Scriptorium.Desk

variable {d d' d'' : Desk} {n i run : Nat} {g : Sheet → Sheet}

/-- The run that holds the gate of a document. -/
def gateOf? (d : Desk) (n : Nat) : Option Nat := (d.sheets[n]?).bind (·.gate?)

/-- The active document is on the desk, alive or not. -/
def Sound (d : Desk) : Prop := ∀ n, d.active? = some n → n < d.sheets.length

/-! ## The current document -/

theorem sheet?_isSome : (d.sheet? n).isSome ↔ ∃ s, d.sheets[n]? = some s ∧ s.alive = true := by
  simp only [Option.isSome_iff_exists, sheet?_eq_some]

theorem number?_eq_some : d.number? = some n ↔ d.active? = some n ∧ (d.sheet? n).isSome := by
  unfold number? current?
  cases d.active? with
  | none => simp
  | some k =>
    cases hk : d.sheet? k with
    | none =>
      simp only [Option.bind_some, hk, Option.map_none, reduceCtorEq, Option.some.injEq, false_iff, not_and]
      rintro rfl
      simp [hk]
    | some s =>
      simp only [Option.bind_some, hk, Option.map_some, Option.some.injEq]
      constructor
      · rintro rfl
        exact ⟨rfl, by simp [hk]⟩
      · exact fun h => h.1

/-! ## Changes of one sheet -/

/-- The desk with one sheet changed. -/
def onSheet (d : Desk) (n : Nat) (g : Sheet → Sheet) : Desk := { d with sheets := d.sheets.modify n g }

theorem getElem?_onSheet : (d.onSheet n g).sheets[i]? = if n = i then (d.sheets[i]?).map g else d.sheets[i]? := by
  rw [onSheet, List.getElem?_modify]
  cases d.sheets[i]? <;> split <;> rfl

theorem gateOf?_onSheet_of_ne (h : n ≠ i) : (d.onSheet n g).gateOf? i = d.gateOf? i := by
  rw [gateOf?, getElem?_onSheet, if_neg h, gateOf?]

theorem gateOf?_onSheet (h : ∀ s, (g s).gate? = s.gate?) : (d.onSheet n g).gateOf? i = d.gateOf? i := by
  rw [gateOf?, getElem?_onSheet, gateOf?]
  cases d.sheets[i]? <;> split <;> simp [h]

/-- No document becomes active, and none on the desk comes back to life. -/
structure Fades (d d' : Desk) : Prop where
  active : d'.active? = d.active? ∨ d'.active? = none
  length : d.sheets.length ≤ d'.sheets.length
  alive : ∀ n < d.sheets.length, (d'.sheet? n).isSome → (d.sheet? n).isSome

theorem Fades.refl (d : Desk) : Fades d d := ⟨.inl rfl, Nat.le_refl _, fun _ _ h => h⟩

theorem fades_onSheet (h : ∀ s, d.sheets[n]? = some s → (g s).alive = true → s.alive = true) :
    Fades d (d.onSheet n g) := by
  refine ⟨.inl rfl, by simp [onSheet], fun i _ hi => ?_⟩
  rw [sheet?_isSome] at hi ⊢
  obtain ⟨s', hs', halive⟩ := hi
  rw [getElem?_onSheet] at hs'
  by_cases hne : n = i
  · rw [if_pos hne] at hs'
    obtain ⟨s, hs, rfl⟩ := Option.map_eq_some_iff.1 hs'
    exact ⟨s, hs, h s (hne ▸ hs) halive⟩
  · rw [if_neg hne] at hs'
    exact ⟨s', hs', halive⟩

theorem fades_add (d : Desk) (document : Document) : Fades d (d.add document).2 := by
  refine ⟨.inl rfl, by simp [add], fun i hi hsome => ?_⟩
  rw [sheet?_isSome] at hsome ⊢
  simpa [add, List.getElem?_append_left hi] using hsome

theorem Fades.sound (h : Fades d d') (hsound : d.Sound) : d'.Sound := by
  intro n hn
  rcases h.active with hactive | hactive
  · exact Nat.lt_of_lt_of_le (hsound n (hactive ▸ hn)) h.length
  · rw [hactive] at hn
    cases hn

/-- The current document stays, or there is none. -/
theorem Fades.number? (h : Fades d d') (hsound : d.Sound) (hn : d'.number? = some n) : d.number? = some n := by
  rw [number?_eq_some] at hn ⊢
  rcases h.active with hactive | hactive
  · have hd : d.active? = some n := hactive ▸ hn.1
    exact ⟨hd, h.alive n (hsound n hd) hn.2⟩
  · rw [hactive] at hn
    cases hn.1

/-! ## Gates -/

/-- Only a free gate of a living document is taken. -/
theorem tryLock_eq_some (h : d.tryLock n run = some d') :
    d.gateOf? n = none ∧ d'.gateOf? n = some run ∧ (∀ i, n ≠ i → d'.gateOf? i = d.gateOf? i) ∧ Fades d d' := by
  unfold tryLock at h
  cases hsheet : d.sheet? n with
  | none =>
    rw [hsheet] at h
    cases h
  | some s =>
    obtain ⟨hs, halive⟩ := sheet?_eq_some.1 hsheet
    simp only [hsheet] at h
    split at h
    · next hfree =>
      let g : Sheet → Sheet := fun s => { s with gate? := some run, waiting := s.waiting.erase run }
      obtain rfl : d.onSheet n g = d' := Option.some.inj h
      refine ⟨?_, ?_, fun i hi => gateOf?_onSheet_of_ne hi, ?_⟩
      · rw [gateOf?, hs]
        exact Option.isNone_iff_eq_none.1 hfree
      · rw [gateOf?, getElem?_onSheet, if_pos rfl, hs]
        rfl
      · apply fades_onSheet
        intro t ht _
        rwa [Option.some.inj (ht.symm.trans hs)]
    · cases h

theorem gateOf?_unlock_of_ne (h : n ≠ i) : (d.unlock n).gateOf? i = d.gateOf? i := gateOf?_onSheet_of_ne h

theorem fades_unlock (d : Desk) (n : Nat) : Fades d (d.unlock n) := by
  refine fades_onSheet fun s _ => ?_
  simp only [Sheet.alive]
  cases s.kept <;> simp +contextual

theorem fades_close (d : Desk) (n : Nat) : Fades d (d.close n) := by
  refine fades_onSheet fun s _ => ?_
  simp only [Sheet.alive]
  cases s.kept <;> simp

theorem fades_update (d : Desk) (n : Nat) (f : Document → Document) : Fades d (d.update n f) :=
  fades_onSheet fun _ _ h => h

/-- Waiting for the gate of the current document brings none back to life. -/
theorem fades_await (h : d.number? = some n) (run : Nat) : Fades d (d.await n run) := by
  refine fades_onSheet fun s hs _ => ?_
  obtain ⟨t, ht, halive⟩ := sheet?_isSome.1 (number?_eq_some.1 h).2
  rwa [Option.some.inj (hs.symm.trans ht)]

end Scriptorium.Desk
