import Mathlib.Data.String.Basic
import Scriptorium.Proofs.Text.Boundary

/-!
# The bytes of a text

In UTF-8 a text has as many bytes as `size` counts (`length_utf8`). An ASCII character is one byte and every byte
of another one lies above ASCII (`utf8EncodeChar_cases`). Texts come in the order of their bytes exactly as they
come in the order of their characters (`utf8_lt_iff`), so that what is sorted by names stands in the order of bytes.
-/

namespace Scriptorium.Text

open String (utf8EncodeChar)

/-- The bytes of a text in UTF-8. -/
def utf8 (cs : List Char) : List UInt8 := cs.flatMap utf8EncodeChar

@[simp] theorem utf8_nil : utf8 [] = [] := rfl

@[simp] theorem utf8_cons (c : Char) (cs : List Char) : utf8 (c :: cs) = utf8EncodeChar c ++ utf8 cs :=
  List.flatMap_cons

@[simp] theorem utf8_append (a b : List Char) : utf8 (a ++ b) = utf8 a ++ utf8 b := List.flatMap_append

@[simp] theorem length_utf8 (cs : List Char) : (utf8 cs).length = size cs := by
  induction cs with
  | nil => rfl
  | cons c cs ih => simp [ih]

/-- An ASCII character is its own byte; the bytes of all others lie above ASCII. -/
theorem utf8EncodeChar_cases (c : Char) :
    (c.toNat < 128 ∧ utf8EncodeChar c = [UInt8.ofNat c.toNat]) ∨
      (128 ≤ c.toNat ∧ ∀ b ∈ utf8EncodeChar c, 128 ≤ b.toNat) := by
  have hval : c.val.toNat = c.toNat := rfl
  by_cases h : c.toNat < 128
  · exact .inl ⟨h, by rw [utf8EncodeChar, hval, if_pos (by omega)]⟩
  · refine .inr ⟨by omega, fun b hb => ?_⟩
    rw [utf8EncodeChar, hval, if_neg (by omega)] at hb
    -- two, three or four bytes
    split at hb
    · simp only [List.mem_cons, List.not_mem_nil, or_false] at hb
      rcases hb with rfl | rfl <;> rw [UInt8.toNat_ofNat'] <;> omega
    split at hb
    · simp only [List.mem_cons, List.not_mem_nil, or_false] at hb
      rcases hb with rfl | rfl | rfl <;> rw [UInt8.toNat_ofNat'] <;> omega
    · simp only [List.mem_cons, List.not_mem_nil, or_false] at hb
      rcases hb with rfl | rfl | rfl | rfl <;> rw [UInt8.toNat_ofNat'] <;> omega

/-! ## The order of texts -/

/-- An encoding of the numbers below a bound that keeps their order, whatever stands behind. -/
def KeepsOrder (bound : Nat) (f : Nat → List UInt8) : Prop :=
  ∀ m n, m < n → n < bound → ∀ xs ys, f m ++ xs < f n ++ ys

theorem keepsOrder_lead (bound base : Nat) (h : bound + base ≤ 256) :
    KeepsOrder bound fun v => [UInt8.ofNat (v % bound + base)] := by
  intro m n hlt hn xs ys
  refine List.cons_lt_cons_iff.2 (.inl ?_)
  rw [UInt8.lt_iff_toNat_lt, UInt8.toNat_ofNat', UInt8.toNat_ofNat', Nat.mod_eq_of_lt hn,
    Nat.mod_eq_of_lt (Nat.lt_trans hlt hn)]
  omega

/-- One more byte, which holds the last six bits. -/
theorem KeepsOrder.tail {bound : Nat} {f : Nat → List UInt8} (h : KeepsOrder bound f) :
    KeepsOrder (64 * bound) fun v => f (v / 64) ++ [UInt8.ofNat (v % 64 + 128)] := by
  intro m n hlt hn xs ys
  simp only [List.append_assoc, List.singleton_append]
  by_cases hfront : m / 64 = n / 64
  · rw [hfront]
    refine List.append_left_lt (List.cons_lt_cons_iff.2 (.inl ?_))
    rw [UInt8.lt_iff_toNat_lt, UInt8.toNat_ofNat', UInt8.toNat_ofNat']
    omega
  · exact h _ _ (by omega) (by omega) _ _

theorem keepsOrder_two :
    KeepsOrder 2048 fun v => [UInt8.ofNat (v / 64 % 32 + 192), UInt8.ofNat (v % 64 + 128)] :=
  (keepsOrder_lead 32 192 (by decide)).tail

theorem keepsOrder_three :
    KeepsOrder 65536 fun v => [UInt8.ofNat (v / 4096 % 16 + 224), UInt8.ofNat (v / 64 % 64 + 128),
      UInt8.ofNat (v % 64 + 128)] := by
  simpa [Nat.div_div_eq_div_mul] using (keepsOrder_lead 16 224 (by decide)).tail.tail

theorem keepsOrder_four :
    KeepsOrder 2097152 fun v => [UInt8.ofNat (v / 262144 % 8 + 240), UInt8.ofNat (v / 4096 % 64 + 128),
      UInt8.ofNat (v / 64 % 64 + 128), UInt8.ofNat (v % 64 + 128)] := by
  simpa [Nat.div_div_eq_div_mul] using (keepsOrder_lead 8 240 (by decide)).tail.tail.tail

/-- Characters keep their order: those of as many bytes byte by byte, and of others the first byte tells. -/
theorem utf8EncodeChar_append_lt {c d : Char} (h : c < d) (xs ys : List UInt8) :
    utf8EncodeChar c ++ xs < utf8EncodeChar d ++ ys := by
  have hlt : c.val.toNat < d.val.toNat := h
  have hd : d.val.toNat < 1114112 := by
    rcases d.valid with hd | hd
    · exact Nat.lt_trans hd (by decide)
    · exact hd.2
  have first {x y : Nat} (hxy : x < y) (hy : y < 256) (xs ys : List UInt8) :
      UInt8.ofNat x :: xs < UInt8.ofNat y :: ys := by
    refine List.cons_lt_cons_iff.2 (.inl ?_)
    rw [UInt8.lt_iff_toNat_lt, UInt8.toNat_ofNat', UInt8.toNat_ofNat']
    omega
  simp only [utf8EncodeChar]
  generalize c.val.toNat = m at hlt ⊢
  generalize d.val.toNat = n at hlt hd ⊢
  by_cases h1 : m ≤ 127
  · rw [if_pos h1]
    split_ifs <;> exact first (by omega) (by omega) _ _
  rw [if_neg h1, if_neg (show ¬ n ≤ 127 by omega)]
  by_cases h2 : m ≤ 2047
  · rw [if_pos h2]
    split_ifs
    · exact keepsOrder_two m n hlt (by omega) xs ys
    · exact first (by omega) (by omega) _ _
    · exact first (by omega) (by omega) _ _
  rw [if_neg h2, if_neg (show ¬ n ≤ 2047 by omega)]
  by_cases h3 : m ≤ 65535
  · rw [if_pos h3]
    split_ifs
    · exact keepsOrder_three m n hlt (by omega) xs ys
    · exact first (by omega) (by omega) _ _
  rw [if_neg h3, if_neg (show ¬ n ≤ 65535 by omega)]
  exact keepsOrder_four m n hlt (by omega) xs ys

theorem utf8_lt_of_lt {a b : List Char} (h : a < b) : utf8 a < utf8 b := by
  induction a generalizing b with
  | nil =>
    cases b with
    | nil => exact absurd h (lt_irrefl _)
    | cons d b =>
      obtain ⟨x, xs, hd⟩ := List.exists_cons_of_ne_nil (String.utf8EncodeChar_ne_nil (c := d))
      rw [utf8_cons, hd]
      exact List.nil_lt_cons _ _
  | cons c a ih =>
    cases b with
    | nil => exact absurd h (List.not_lt_nil _)
    | cons d b =>
      rw [utf8_cons, utf8_cons]
      rcases List.cons_lt_cons_iff.1 h with hlt | ⟨rfl, hlt⟩
      · exact utf8EncodeChar_append_lt hlt _ _
      · exact List.append_left_lt (ih hlt)

/-- The order of texts is the order of their bytes. -/
theorem utf8_lt_iff {a b : List Char} : utf8 a < utf8 b ↔ a < b := by
  refine ⟨fun h => ?_, utf8_lt_of_lt⟩
  rcases lt_trichotomy a b with hlt | rfl | hgt
  · exact hlt
  · exact absurd h (List.lt_irrefl _)
  · exact absurd h (List.lt_asymm (utf8_lt_of_lt hgt))

/-! ## Sorting -/

theorem decide_lt_eq_false_iff {a b : String} : decide (b < a) = false ↔ a.toList ≤ b.toList := by
  rw [decide_eq_false_iff_not]
  exact (not_lt : ¬ b.toList < a.toList ↔ a.toList ≤ b.toList)

/-- What is sorted by comparing keys stands in the order of the keys. -/
theorem pairwise_mergeSort_key {α κ : Type} [LinearOrder κ] {key : α → κ} {le : α → α → Bool}
    (h : ∀ a b, key a ≤ key b ↔ le a b = true) (xs : List α) :
    (xs.mergeSort le).Pairwise fun a b => key a ≤ key b := by
  simp only [h]
  refine List.pairwise_mergeSort (fun a b c => ?_) (fun a b => ?_) xs
  · simp only [← h]
    exact le_trans
  · rw [Bool.or_eq_true, ← h, ← h]
    exact le_total _ _

end Scriptorium.Text
