import Mathlib.Data.List.Forall2
import Mathlib.Data.List.Nodup
import Scriptorium.Proofs.Json.RecordFields

/-!
# Reading some fields of a record

An object may name some fields of a record, in any order, and keys that are no fields. If no field is named twice, the
reader replaces the fields that are named and no others (`decode?_of_chosen`); if one is, it gives nothing
(`decode?_of_repeats`).
-/

namespace Scriptorium.Json

variable {σ : Type} {fields : List (RecordField σ)} {known members : List (String × Json)}
  {replaced : σ → List String → σ} {key : String} {v : Json}

/-- The keys of members, in their order. -/
def keys (members : List (String × Json)) : List String := members.map (·.1)

/-- Members with known keys have the known values, and none of these keys stands twice. Nothing is said of others. -/
structure Chosen (known members : List (String × Json)) : Prop where
  value : ∀ m ∈ members, ∀ k ∈ known, m.1 = k.1 → m.2 = k.2
  once : ∀ key ∈ keys known, (keys members).count key ≤ 1

/-- The key of a field stands twice. -/
def Repeats (fields : List (RecordField σ)) (members : List (String × Json)) : Prop :=
  ∃ f ∈ fields, 2 ≤ (keys members).count f.key

theorem repeatsField_iff : repeatsField fields members = true ↔ Repeats fields members := by
  have hfalse : repeatsField fields members = false ↔ ∀ f ∈ fields, (keys members).count f.key ≤ 1 := by
    rw [repeatsField, Option.isSome_eq_false_iff, Option.isNone_iff_eq_none, firstRepeat?_eq_none_iff,
      List.nodup_iff_count_le_one]
    constructor
    · rintro ⟨hcount, -⟩ f hf
      have hle := hcount f.key
      rw [List.count_filter] at hle
      · exact hle
      · exact List.any_eq_true.2 ⟨f, hf, beq_self_eq_true _⟩
    · refine fun hcount => ⟨fun key => ?_, fun _ _ => List.not_mem_nil⟩
      by_cases hknown : (fields.any (·.key == key)) = true
      · rw [List.count_filter]
        · obtain ⟨f, hf, hkey⟩ := List.any_eq_true.1 hknown
          exact eq_of_beq hkey ▸ hcount f hf
        · exact hknown
      · refine (List.count_eq_zero_of_not_mem ?_).trans_le (Nat.zero_le 1)
        exact fun hmem => hknown (List.mem_filter.1 hmem).2
  rw [← Bool.not_eq_false, hfalse, Repeats]
  push Not
  rfl

theorem decode?_of_repeats (h : Repeats fields members) (t : σ) : decode? fields t (.obj members) = none := by
  rw [decode?, if_pos (repeatsField_iff.2 h)]

/-! ## Fields that are replaced -/

/-- `replaced t keys` is `t` with what the known members write under the keys: the fields read these members so, and
what is said of several keys follows from what is said of each. -/
structure Replaces (fields : List (RecordField σ)) (known : List (String × Json)) (replaced : σ → List String → σ) :
    Prop where
  none : ∀ t, replaced t [] = t
  more : ∀ t key keys, replaced (replaced t [key]) keys = replaced t (key :: keys)
  unknown : ∀ t key, key ∉ keys known → replaced t [key] = t
  read : List.Forall₂ (fun f m => f.key = m.1 ∧ ∀ t, f.read m.2 t = some (replaced t [m.1])) fields known

namespace Replaces

variable (h : Replaces fields known replaced)
include h

theorem keys_eq : fields.map (·.key) = keys known := by
  rw [keys, ← List.forall₂_eq_eq_eq, List.forall₂_map_left_iff, List.forall₂_map_right_iff]
  exact h.read.imp fun _ _ hread => hread.1

/-- The field of a key reads the known member of that key; a key without a field is not known. -/
theorem find?_key (key : String) :
    (∃ f w, fields.find? (·.key == key) = some f ∧ (key, w) ∈ known ∧ ∀ t, f.read w t = some (replaced t [key])) ∨
      fields.find? (·.key == key) = Option.none ∧ key ∉ keys known := by
  have hread := h.read
  clear h
  induction hread with
  | nil => exact .inr ⟨rfl, List.not_mem_nil⟩
  | @cons f m fields known hf hread ih =>
    obtain ⟨name, w⟩ := m
    obtain ⟨rfl, hreads⟩ := hf
    by_cases hkey : f.key = key
    · subst hkey
      exact .inl ⟨f, w, List.find?_cons_of_pos (beq_self_eq_true _), List.mem_cons_self, hreads⟩
    · rw [List.find?_cons_of_neg (by simpa using hkey)]
      rcases ih with ⟨g, u, hfind, hmem, hg⟩ | ⟨hfind, hnot⟩
      · exact .inl ⟨g, u, hfind, List.mem_cons_of_mem _ hmem, hg⟩
      · exact .inr ⟨hfind, List.not_mem_cons_of_ne_of_not_mem (Ne.symm hkey) hnot⟩

theorem readKeyed_eq (hvalue : ∀ m ∈ members, ∀ k ∈ known, m.1 = k.1 → m.2 = k.2) (t : σ) :
    readKeyed fields t members = some (replaced t (keys members)) := by
  induction members generalizing t with
  | nil => exact congrArg some (h.none t).symm
  | cons m members ih =>
    obtain ⟨key, v⟩ := m
    obtain ⟨hfirst, hmore⟩ := List.forall_mem_cons.1 hvalue
    have hrest := ih hmore (replaced t [key])
    rw [h.more] at hrest
    rw [readKeyed, List.foldlM_cons]
    rcases h.find?_key key with ⟨f, w, hfind, hmem, hread⟩ | ⟨hfind, hnot⟩
    · obtain rfl : v = w := hfirst (key, w) hmem rfl
      simp only [hfind, hread]
      exact hrest
    · rw [h.unknown t key hnot] at hrest
      simp only [hfind]
      exact hrest

/-- The members that are chosen replace the fields that they name. -/
theorem decode?_of_chosen (hchosen : Chosen known members) (t : σ) :
    decode? fields t (.obj members) = some (replaced t (keys members)) := by
  have honce : ¬ repeatsField fields members = true := by
    rintro hrepeats
    obtain ⟨f, hf, htwice⟩ := repeatsField_iff.1 hrepeats
    have hle := hchosen.once f.key (h.keys_eq ▸ List.mem_map_of_mem hf)
    omega
  rw [decode?, if_neg honce, h.readKeyed_eq hchosen.value]

end Replaces

/-! ## Fields that cannot be read -/

/-- One member that is not read is enough. -/
theorem readKeyed_eq_none {f : RecordField σ} (hmem : (key, v) ∈ members)
    (hfind : fields.find? (·.key == key) = some f) (hread : ∀ t, f.read v t = none) (t : σ) :
    readKeyed fields t members = none := by
  induction members generalizing t with
  | nil => cases hmem
  | cons m members ih =>
    rw [readKeyed, List.foldlM_cons]
    rcases List.mem_cons.1 hmem with rfl | hmem
    · simp only [hfind, hread]
      rfl
    · exact Option.bind_eq_none_iff.2 fun t _ => ih hmem t

theorem RecordField.read_of {α : Type} {get : σ → α} {set : α → σ → σ} {decode : Json → Option α} {encode : α → Json}
    {a : α} (h : decode v = some a) (t : σ) :
    (RecordField.of key get set decode encode).read v t = some (set a t) := by
  rw [of]
  simp only [h, Option.map_some]

end Scriptorium.Json
