import Mathlib.Data.List.Infix
import Scriptorium.Text.Bytes

/-!
# The first place of a needle

`splitOnce` cuts a text at the first place where the needle stands (`splitOnce_eq_some_iff`); it finds none exactly
when the needle is no part of the text (`splitOnce_eq_none_iff`), which is what `contains` tells.
-/

namespace Scriptorium.Text

variable {needle front back cs : List Char} {c : Char}

/-- Written behind `front`, the needle stands nowhere earlier. -/
def FirstBehind (front needle : List Char) : Prop :=
  ∀ x y, front ++ needle = x ++ needle ++ y → front.length ≤ x.length

theorem firstBehind_nil (needle : List Char) : FirstBehind [] needle := fun _ _ _ => Nat.zero_le _

/-- One more character in front makes a new first place of the needle only if the needle begins there. -/
theorem firstBehind_cons_iff :
    FirstBehind (c :: front) needle ↔ ¬ needle <+: c :: front ++ needle ∧ FirstBehind front needle := by
  constructor
  · intro h
    constructor
    · rintro ⟨y, hy⟩
      have hlength := h [] y (by rw [List.nil_append, hy])
      simp at hlength
    · intro x y hplace
      have hlength := h (c :: x) y (congrArg (c :: ·) hplace)
      simpa using hlength
  · rintro ⟨hnot, h⟩ x y hplace
    cases x with
    | nil => exact absurd ⟨y, hplace.symm⟩ hnot
    | cons d x =>
      have hlength := h x y (List.cons.inj hplace).2
      simpa using hlength

theorem FirstBehind.not_within (h : FirstBehind front needle) (hne : needle ≠ []) : ¬ needle <:+: front := by
  rintro ⟨x, y, hplace⟩
  have hlength := h x (y ++ needle) (by rw [← hplace, List.append_assoc _ y])
  have hpos := List.length_pos_of_ne_nil hne
  rw [← hplace, List.length_append, List.length_append] at hlength
  omega

/-- Wherever else the needle stands, its first place is in front of there. -/
theorem FirstBehind.exists_append {x y : List Char} (h : FirstBehind front needle)
    (hplace : x ++ needle ++ y = front ++ needle ++ back) :
    ∃ between, x = front ++ between ∧ between ++ needle ++ y = needle ++ back := by
  have hfound : front ++ needle <+: x ++ needle ++ y := hplace ▸ List.prefix_append _ _
  have hle : front.length ≤ x.length := by
    by_contra hlt
    have hlonger : (x ++ needle).length ≤ (front ++ needle).length := by
      rw [List.length_append, List.length_append]
      omega
    obtain ⟨z, hz⟩ := List.prefix_of_prefix_length_le (List.prefix_append _ _) hfound hlonger
    exact hlt (h x z hz.symm)
  obtain ⟨between, rfl⟩ : front <+: x := by
    refine List.prefix_of_prefix_length_le ((List.prefix_append _ _).trans hfound) ?_ hle
    exact (List.prefix_append _ _).trans (List.prefix_append _ _)
  refine ⟨between, rfl, ?_⟩
  simpa only [List.append_assoc, List.append_cancel_left_eq] using hplace

/-! ## Cutting there -/

theorem splitOnce_self_append (needle back : List Char) : splitOnce needle (needle ++ back) = some ([], back) := by
  cases needle with
  | nil => cases back <;> rfl
  | cons d needle => simp [splitOnce]

theorem splitOnce_cons_of_not (h : ¬ needle <+: c :: cs) :
    splitOnce needle (c :: cs) = (splitOnce needle cs).map fun (front, back) => (c :: front, back) := by
  rw [splitOnce, if_neg (mt List.isPrefixOf_iff_prefix.1 h)]

theorem splitOnce_append (h : FirstBehind front needle) (back : List Char) :
    splitOnce needle (front ++ needle ++ back) = some (front, back) := by
  induction front with
  | nil => exact splitOnce_self_append needle back
  | cons c front ih =>
    obtain ⟨hnot, hrest⟩ := firstBehind_cons_iff.1 h
    have hnot' : ¬ needle <+: c :: (front ++ needle ++ back) := by
      intro hbegins
      apply hnot
      apply List.prefix_of_prefix_length_le hbegins (List.prefix_append (c :: front ++ needle) back)
      simp only [List.length_append, List.length_cons]
      omega
    show splitOnce needle (c :: (front ++ needle ++ back)) = _
    rw [splitOnce_cons_of_not hnot', ih hrest]
    rfl

/-- A text is cut at the first place of the needle. -/
theorem splitOnce_eq_some_iff :
    splitOnce needle cs = some (front, back) ↔ cs = front ++ needle ++ back ∧ FirstBehind front needle := by
  constructor
  · intro h
    induction cs generalizing front with
    | nil =>
      cases needle with
      | nil =>
        obtain ⟨rfl, rfl⟩ : [] = front ∧ [] = back := Prod.mk.inj (Option.some.inj h)
        exact ⟨rfl, firstBehind_nil _⟩
      | cons d needle => cases h
    | cons c cs ih =>
      by_cases hbegins : needle <+: c :: cs
      · obtain ⟨rest, hrest⟩ := hbegins
        rw [← hrest, splitOnce_self_append] at h
        obtain ⟨rfl, rfl⟩ := Prod.mk.inj (Option.some.inj h)
        exact ⟨hrest.symm, firstBehind_nil _⟩
      · rw [splitOnce_cons_of_not hbegins, Option.map_eq_some_iff] at h
        obtain ⟨⟨front', back'⟩, hsplit, hparts⟩ := h
        obtain ⟨rfl, rfl⟩ := Prod.mk.inj hparts
        obtain ⟨rfl, hfirst⟩ := ih hsplit
        refine ⟨rfl, firstBehind_cons_iff.2 ⟨fun hfront => hbegins ?_, hfirst⟩⟩
        exact hfront.trans (List.prefix_append (c :: front' ++ needle) back')
  · rintro ⟨rfl, h⟩
    exact splitOnce_append h back

theorem splitOnce_eq_none_iff : splitOnce needle cs = none ↔ ¬ needle <:+: cs := by
  induction cs with
  | nil => cases needle <;> simp [splitOnce]
  | cons c cs ih =>
    rw [List.infix_cons_iff, not_or]
    by_cases hbegins : needle <+: c :: cs
    · obtain ⟨rest, hrest⟩ := hbegins
      rw [← hrest, splitOnce_self_append]
      simp
    · rw [splitOnce_cons_of_not hbegins, Option.map_eq_none_iff, ih]
      exact (and_iff_right hbegins).symm

theorem contains_iff_isInfix : contains cs needle = true ↔ needle <:+: cs := by
  induction cs with
  | nil => simp [contains]
  | cons c cs ih => rw [contains, Bool.or_eq_true, List.isPrefixOf_iff_prefix, ih, List.infix_cons_iff]

end Scriptorium.Text
