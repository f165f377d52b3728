/-!
# Repetitions in a list

`firstRepeat?` finds the earliest member of a list that already stood before it; there is none exactly when
the members are distinct.
-/

namespace Scriptorium

/-- The earliest member that is among the seen ones or stands earlier in the list. -/
def firstRepeat? [DecidableEq α] : List α → List α → Option α
  | _, [] => none
  | seen, a :: as => if a ∈ seen then some a else firstRepeat? (a :: seen) as

theorem firstRepeat?_eq_none_iff [DecidableEq α] {seen as : List α} :
    firstRepeat? seen as = none ↔ as.Nodup ∧ ∀ a ∈ as, a ∉ seen := by
  induction as generalizing seen with
  | nil => simp [firstRepeat?]
  | cons a as ih =>
    by_cases h : a ∈ seen
    · simp [firstRepeat?, h]
    · simp only [firstRepeat?, h, if_false, ih, List.nodup_cons, List.mem_cons, not_or]
      constructor
      · rintro ⟨hn, hs⟩
        refine ⟨⟨fun ha => (hs a ha).1 rfl, hn⟩, ?_⟩
        rintro b (rfl | hb)
        · exact h
        · exact (hs b hb).2
      · rintro ⟨⟨ha, hn⟩, hs⟩
        exact ⟨hn, fun b hb => ⟨fun hba => ha (hba ▸ hb), hs b (.inr hb)⟩⟩

end Scriptorium
