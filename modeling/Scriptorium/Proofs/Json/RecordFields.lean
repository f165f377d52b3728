import Scriptorium.Json.Record
import Scriptorium.Proofs.Json.PrettyRoundTrip

/-!
# Reading records back

The object that `encode` writes names every field once, in the order of the fields, so reading it copies one
field after the other (`decode?_encode`).
-/

namespace Scriptorium.Json

variable {σ α : Type} {fields : List (RecordField σ)}

/-! ## Single values -/

theorem asString?_str (s : String) : asString? (.str s) = some s := rfl

theorem asBool?_bool (b : Bool) : asBool? (.bool b) = some b := rfl

theorem asUInt64?_toNat (n : UInt64) : asUInt64? (.int n.toNat) = some n := by
  have hlt := n.toNat_lt
  rw [asUInt64?, if_pos (by omega), Int.toNat_natCast, UInt64.ofNat_toNat]

theorem asUInt32?_toNat (n : UInt32) : asUInt32? (.int n.toNat) = some n := by
  have hlt := n.toNat_lt
  rw [asUInt32?, if_pos (by omega), Int.toNat_natCast, UInt32.ofNat_toNat]

theorem asInt64?_toInt (n : Int64) : asInt64? (.int n.toInt) = some n := by
  have hle := n.le_toInt
  have hlt := n.toInt_lt
  rw [asInt64?, if_pos ⟨hle, hlt⟩, Int64.ofInt_toInt]

theorem asOption?_ofOption (o : Option String) : asOption? asString? (ofOption .str o) = some o := by
  cases o <;> rfl

theorem asList?_str (items : List String) : asList? asString? (.arr (items.map .str)) = some items := by
  rw [asList?, mapM_map_of_readsBack]
  exact asString?_str

theorem exact_ofOption (o : Option String) : Exact (ofOption .str o) := by
  cases o with
  | none => exact .null
  | some s => exact .str s

theorem exact_strings (items : List String) : Exact (.arr (items.map .str)) := by
  refine .arr fun v hv => ?_
  obtain ⟨s, -, rfl⟩ := List.mem_map.1 hv
  exact .str s

/-! ## Records -/

/-- The field of a record read from what the field of another one was written as. -/
def RecordField.copy (f : RecordField σ) (s t : σ) : Option σ := f.read (f.write s) t

theorem RecordField.copy_of {key : String} {get : σ → α} {set : α → σ → σ} {decode : Json → Option α}
    {encode : α → Json} (h : ∀ a, decode (encode a) = some a) (s t : σ) :
    (RecordField.of key get set decode encode).copy s t = some (set (get s) t) := by
  rw [copy, of]
  simp only [h, Option.map_some]

theorem find?_key (hkeys : (fields.map (·.key)).Nodup) {f : RecordField σ} (hf : f ∈ fields) :
    fields.find? (·.key == f.key) = some f := by
  induction fields with
  | nil => cases hf
  | cons g fields ih =>
    simp only [List.map_cons, List.nodup_cons] at hkeys
    obtain ⟨hg, hkeys⟩ := hkeys
    rcases List.mem_cons.1 hf with rfl | hf
    · exact List.find?_cons_of_pos (beq_self_eq_true _)
    · have hne : g.key ≠ f.key := fun h => hg (h ▸ List.mem_map_of_mem hf)
      rw [List.find?_cons_of_neg (by simpa using hne), ih hkeys hf]

theorem repeatsField_encode (hkeys : (fields.map (·.key)).Nodup) (s : σ) :
    repeatsField fields (fields.map fun f => (f.key, f.write s)) = false := by
  have hmap : (fields.map fun f => (f.key, f.write s)).map (·.1) = fields.map (·.key) := by
    rw [List.map_map]
    rfl
  rw [repeatsField, hmap, Option.isSome_eq_false_iff, Option.isNone_iff_eq_none, firstRepeat?_eq_none_iff]
  exact ⟨hkeys.filter _, fun _ _ => List.not_mem_nil⟩

/-- Reading an encoded record copies its fields one after the other. -/
theorem decode?_encode (hkeys : (fields.map (·.key)).Nodup) (s t : σ) :
    decode? fields t (encode fields s) = fields.foldlM (fun t f => f.copy s t) t := by
  have hfold : ∀ part ⊆ fields, ∀ t, readKeyed fields t (part.map fun f => (f.key, f.write s)) =
      part.foldlM (fun t f => f.copy s t) t := by
    intro part hpart
    induction part with
    | nil => exact fun _ => rfl
    | cons f part ih =>
      intro t
      obtain ⟨hf, hpart⟩ := List.cons_subset.1 hpart
      rw [readKeyed, List.map_cons, List.foldlM_cons, List.foldlM_cons]
      simp only [find?_key hkeys hf]
      exact bind_congr fun t => ih hpart t
  rw [encode, decode?, repeatsField_encode hkeys, if_neg Bool.false_ne_true,
    hfold fields (List.Subset.refl _)]

theorem exact_encode {s : σ} (h : ∀ f ∈ fields, Exact (f.write s)) : Exact (encode fields s) := by
  refine .obj fun m hm => ?_
  obtain ⟨f, hf, rfl⟩ := List.mem_map.1 hm
  exact h f hf

end Scriptorium.Json
