import Mathlib.Order.Lattice
import Scriptorium.Table.Basic

/-!
# The order of column types

A type lies below another when the other admits all that it admits. The type of cells is then the least one
above the types of all of them (`typeOf_le_iff`), whatever their order, and cells without a value do not count.
-/

namespace Scriptorium

namespace ColumnType

instance : SemilatticeSup ColumnType where
  le a b := merge a b = b
  sup := merge
  le_refl := merge_self
  le_trans a b c hab hbc := by
    show merge a c = c
    rw [← hbc, ← merge_assoc, hab]
  le_antisymm a b hab hba := by
    rw [← hab, merge_comm, hba]
  le_sup_left a b := by
    show merge a (merge a b) = merge a b
    rw [← merge_assoc, merge_self]
  le_sup_right a b := by
    show merge b (merge a b) = merge a b
    rw [merge_comm a b, ← merge_assoc, merge_self]
  sup_le a b c hac hbc := by
    show merge (merge a b) c = c
    rw [merge_assoc, hbc, hac]

theorem merge_le_iff {a b c : ColumnType} : merge a b ≤ c ↔ a ≤ c ∧ b ≤ c := sup_le_iff

instance : DecidableLE ColumnType := fun a b => decEq (merge a b) b

@[simp] theorem empty_le (a : ColumnType) : .empty ≤ a := empty_merge a

@[simp] theorem le_text (a : ColumnType) : a ≤ .text := by cases a <;> rfl

end ColumnType

namespace Table

variable {cells : List Cell} {type : ColumnType}

theorem foldl_merge_le_iff {start : ColumnType} :
    cells.foldl (fun type c => type.merge c.classify) start ≤ type ↔
      start ≤ type ∧ ∀ c ∈ cells, c.classify ≤ type := by
  induction cells generalizing start with
  | nil => simp
  | cons c cells ih =>
    rw [List.foldl_cons, ih, ColumnType.merge_le_iff, List.forall_mem_cons, and_assoc]

/-- The type of cells is the least one above the types of all of them. -/
theorem typeOf_le_iff : typeOf cells ≤ type ↔ ∀ c ∈ cells, c.classify ≤ type := by
  rw [typeOf, foldl_merge_le_iff, and_iff_right (ColumnType.empty_le type)]

theorem classify_le_typeOf {c : Cell} (h : c ∈ cells) : c.classify ≤ typeOf cells :=
  typeOf_le_iff.1 le_rfl c h

/-- Cells have the same type when each lies below the type of the others. -/
theorem typeOf_eq_of_le {others : List Cell} (h : ∀ c ∈ cells, c.classify ≤ typeOf others)
    (h' : ∀ c ∈ others, c.classify ≤ typeOf cells) : typeOf cells = typeOf others :=
  le_antisymm (typeOf_le_iff.2 h) (typeOf_le_iff.2 h')

end Table

end Scriptorium
