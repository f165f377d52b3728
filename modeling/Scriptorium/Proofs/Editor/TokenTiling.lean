import Scriptorium.Proofs.Editor.LexemeExtent
import Scriptorium.Proofs.Text.Utf8

/-!
# Tokens on their text

The tokens of a text lie on it one behind the other, each of them a whole number of characters, and leave out
nothing but blanks and what is not ASCII: `tokenize_tiles`. Each is as long as the scan at its place says, as no scan
stands still or leaves the text.
-/

namespace Scriptorium.Editor

open Text

variable {cs : List Char} {c : Char} {t : Token} {offset : Nat}

/-- The bytes of the ASCII blanks: blank, tab, LF, FF and CR. -/
def blankBytes : List UInt8 := [0x20, 0x09, 0x0A, 0x0C, 0x0D]

/-- A byte in which a lexeme may begin. -/
def IsCodeByte (b : UInt8) : Prop := b < 128 ∧ b ∉ blankBytes

/-- Tokens that lie on a text without overlap and cover all of its bytes that are in ASCII and not blank. -/
structure Tiles (cs : List Char) (ts : List Token) : Prop where
  /-- Each token begins behind the one before it. -/
  ordered : ts.Pairwise fun s t => s.start < t.start ∧ s.stop ≤ t.start
  nonempty : ∀ t ∈ ts, t.start < t.stop
  inside : ∀ t ∈ ts, t.stop ≤ size cs
  /-- The text can be cut at both ends of a token, and what is between them is its text. -/
  sliced : ∀ t ∈ ts, Boundary t.start cs ∧ Boundary t.stop cs ∧ slice t.start t.stop cs = t.text
  /-- The scan at its place finds the token, no longer and no shorter. -/
  scanned : ∀ t ∈ ts, lexemeLength? (drop t.start cs) = some (t.kind, t.text.length)
  first : ∀ t ∈ ts, ∃ b, (utf8 cs)[t.start]? = some b ∧ IsCodeByte b
  /-- Bytes from 128 on are those of the characters outside ASCII. -/
  between : ∀ i b, (utf8 cs)[i]? = some b → (∀ t ∈ ts, ¬ (t.start ≤ i ∧ i < t.stop)) → b ∈ blankBytes ∨ 128 ≤ b

/-! ## Bytes of characters -/

theorem mem_blankBytes_iff (h : c.toNat < 128) : UInt8.ofNat c.toNat ∈ blankBytes ↔ isAsciiBlank c = true := by
  have hbyte : (UInt8.ofNat c.toNat).toNat = c.toNat := by
    rw [UInt8.toNat_ofNat']
    omega
  simp only [blankBytes, isAsciiBlank, List.mem_cons, List.not_mem_nil, or_false, Bool.or_eq_true, beq_iff_eq,
    ← UInt8.toNat_inj, ← Char.toNat_inj, hbyte, or_assoc]
  exact Iff.rfl

/-- Between lexemes stand blanks and what is not ASCII. -/
theorem bytes_of_gap (h : lexemeLength? (c :: cs) = none) {b : UInt8} (hb : b ∈ String.utf8EncodeChar c) :
    b ∈ blankBytes ∨ 128 ≤ b := by
  have hc := lexemeLength?_eq_none_iff.1 h
  rcases utf8EncodeChar_cases c with ⟨hascii, hbytes⟩ | ⟨-, habove⟩
  · rw [hbytes, List.mem_singleton] at hb
    simp only [isAscii, hascii, decide_true, Bool.not_true, Bool.or_false] at hc
    exact .inl (hb ▸ (mem_blankBytes_iff hascii).2 hc)
  · exact .inr (UInt8.le_iff_toNat_le.2 (habove b hb))

/-- A lexeme begins with a character that is a single byte. -/
theorem byte_of_lexeme {kind : LexemeKind} {n : Nat} (h : lexemeLength? (c :: cs) = some (kind, n)) :
    ∃ b, String.utf8EncodeChar c = [b] ∧ IsCodeByte b := by
  have hlexeme : lexemeLength? (c :: cs) ≠ none := by
    rw [h]
    exact Option.some_ne_none _
  have hc := Bool.eq_false_iff.2 (mt lexemeLength?_eq_none_iff.2 hlexeme)
  rw [Bool.or_eq_false_iff, Bool.not_eq_false', isAscii, decide_eq_true_eq] at hc
  obtain ⟨hblank, hascii⟩ := hc
  rcases utf8EncodeChar_cases c with ⟨-, hbytes⟩ | ⟨habove, -⟩
  · refine ⟨_, hbytes, ?_, ?_⟩
    · rw [UInt8.lt_iff_toNat_lt, UInt8.toNat_ofNat']
      exact Nat.lt_of_le_of_lt (Nat.mod_le _ _) hascii
    · rw [mem_blankBytes_iff hascii, hblank]
      exact Bool.false_ne_true
  · omega

/-! ## Places of tokens -/

/-- Where a token stands, its text is found in the text, and the scan there is as long. -/
theorem exists_split_of_mem_locate (h : t ∈ locate offset (pieces cs)) :
    ∃ front back, cs = front ++ t.text ++ back ∧ t.start = offset + size front ∧
      lexemeLength? (t.text ++ back) = some (t.kind, t.text.length) := by
  fun_induction pieces cs generalizing offset with
  | case1 => cases h
  | case2 c cs hgap ih =>
    obtain ⟨front, back, hcs, hstart, hscan⟩ := ih h
    refine ⟨c :: front, back, by rw [hcs]; rfl, ?_, hscan⟩
    rw [hstart, size_cons, Nat.add_assoc]
  | case3 c cs kind n hlength ih =>
    rcases List.mem_cons.1 h with rfl | h
    · have hbounds := lexemeLength?_bounds hlength
      have hjoin : c :: cs.take (n - 1) ++ cs.drop (n - 1) = c :: cs := by
        rw [List.cons_append, List.take_append_drop]
      refine ⟨[], cs.drop (n - 1), hjoin.symm, rfl, ?_⟩
      have hcount : (c :: cs.take (n - 1)).length = n := by
        rw [List.length_cons, List.length_take]
        omega
      change lexemeLength? (c :: cs.take (n - 1) ++ cs.drop (n - 1)) = some (kind, (c :: cs.take (n - 1)).length)
      rw [hjoin, hcount, hlength]
    · obtain ⟨front, back, hcs, hstart, hscan⟩ := ih h
      refine ⟨c :: cs.take (n - 1) ++ front, back, ?_, ?_, hscan⟩
      · rw [List.append_assoc, List.append_assoc, ← List.append_assoc front, ← hcs, List.cons_append,
          List.take_append_drop]
      · rw [hstart, size_append, Nat.add_assoc]

theorem le_start_of_mem_locate {ps : List Piece} (h : t ∈ locate offset ps) : offset ≤ t.start := by
  fun_induction locate offset ps with
  | case1 => cases h
  | case2 offset c ps ih => exact Nat.le_trans (Nat.le_add_right _ _) (ih h)
  | case3 offset l ps ih =>
    rcases List.mem_cons.1 h with rfl | h
    · exact Nat.le_refl _
    · exact Nat.le_trans (Nat.le_add_right _ _) (ih h)

theorem pairwise_locate (offset : Nat) (ps : List Piece) :
    (locate offset ps).Pairwise fun s t => s.stop ≤ t.start := by
  fun_induction locate offset ps with
  | case1 => exact .nil
  | case2 offset c ps ih => exact ih
  | case3 offset l ps ih => exact .cons (fun t ht => le_start_of_mem_locate ht) ih

/-- A byte in no token belongs to a character between lexemes. -/
theorem byte_of_not_mem (offset : Nat) {i : Nat} {b : UInt8} (hb : (utf8 cs)[i]? = some b)
    (houtside : ∀ t ∈ locate offset (pieces cs), ¬ (t.start ≤ offset + i ∧ offset + i < t.stop)) :
    b ∈ blankBytes ∨ 128 ≤ b := by
  fun_induction pieces cs generalizing offset i with
  | case1 => cases hb
  | case2 c cs hgap ih =>
    rw [utf8_cons] at hb
    by_cases hi : i < c.utf8Size
    · rw [List.getElem?_append_left (by rwa [String.length_utf8EncodeChar])] at hb
      exact bytes_of_gap hgap (List.mem_of_getElem? hb)
    · rw [List.getElem?_append_right (by rw [String.length_utf8EncodeChar]; omega),
        String.length_utf8EncodeChar] at hb
      refine ih (offset + c.utf8Size) hb fun t ht => ?_
      rw [show offset + c.utf8Size + (i - c.utf8Size) = offset + i by omega]
      exact houtside t ht
  | case3 c cs kind n hlength ih =>
    have hfirst := houtside _ List.mem_cons_self
    simp only [Token.stop, Token.text] at hfirst
    have hjoin : c :: cs = c :: cs.take (n - 1) ++ cs.drop (n - 1) := by
      rw [List.cons_append, List.take_append_drop]
    have hbehind : size (c :: cs.take (n - 1)) ≤ i := by omega
    rw [hjoin, utf8_append, List.getElem?_append_right (by rwa [length_utf8]), length_utf8] at hb
    refine ih (offset + size (c :: cs.take (n - 1))) hb fun t ht => ?_
    rw [show offset + size (c :: cs.take (n - 1)) + (i - size (c :: cs.take (n - 1))) = offset + i by omega]
    exact houtside t (List.mem_cons_of_mem _ ht)

/-! ## Tiling -/

theorem exists_split_of_mem_tokenize (h : t ∈ tokenize cs) :
    ∃ front c text back, cs = front ++ (t.text ++ back) ∧ t.start = size front ∧ t.text = c :: text ∧
      lexemeLength? (t.text ++ back) = some (t.kind, t.text.length) := by
  obtain ⟨front, back, hcs, hstart, hscan⟩ := exists_split_of_mem_locate h
  rw [List.append_assoc] at hcs
  rw [Nat.zero_add] at hstart
  cases htext : t.text with
  | cons c text => exact ⟨front, c, text, back, by rw [hcs, htext], hstart, rfl, htext ▸ hscan⟩
  | nil =>
    -- no scan stands still
    rw [htext, List.nil_append] at hscan
    cases back with
    | nil => cases hscan
    | cons d back => exact absurd (lexemeLength?_bounds hscan).1 (by simp)

theorem start_lt_stop (h : t ∈ tokenize cs) : t.start < t.stop := by
  obtain ⟨front, c, text, back, -, -, htext, -⟩ := exists_split_of_mem_tokenize h
  have := c.utf8Size_pos
  rw [Token.stop, htext, size_cons]
  omega

theorem stop_le_size (h : t ∈ tokenize cs) : t.stop ≤ size cs := by
  obtain ⟨front, c, text, back, hcs, hstart, -, -⟩ := exists_split_of_mem_tokenize h
  rw [Token.stop, hstart, hcs, size_append, size_append]
  omega

/-- The tokens of every text tile it. -/
theorem tokenize_tiles (cs : List Char) : Tiles cs (tokenize cs) where
  ordered := (pairwise_locate 0 (pieces cs)).imp_of_mem fun hs _ hle =>
    ⟨Nat.lt_of_lt_of_le (start_lt_stop hs) hle, hle⟩
  nonempty t ht := start_lt_stop ht
  inside t ht := stop_le_size ht
  sliced t ht := by
    obtain ⟨front, c, text, back, hcs, hstart, -, -⟩ := exists_split_of_mem_tokenize ht
    rw [Token.stop, hstart, hcs]
    refine ⟨boundary_size_append _ _, ?_, ?_⟩
    · rw [← List.append_assoc, ← size_append]
      exact boundary_size_append _ _
    · rw [slice, Nat.add_sub_cancel_left, drop_size_append, take_size_append]
  scanned t ht := by
    obtain ⟨front, c, text, back, hcs, hstart, -, hscan⟩ := exists_split_of_mem_tokenize ht
    rw [hstart, hcs, drop_size_append, hscan]
  first t ht := by
    obtain ⟨front, c, text, back, hcs, hstart, htext, hscan⟩ := exists_split_of_mem_tokenize ht
    rw [htext, List.cons_append] at hscan
    obtain ⟨b, hbyte, hcode⟩ := byte_of_lexeme hscan
    refine ⟨b, ?_, hcode⟩
    rw [hcs, htext, hstart, utf8_append, List.getElem?_append_right (by rw [length_utf8]), length_utf8,
      Nat.sub_self, List.cons_append, utf8_cons, hbyte]
    rfl
  between i b hb houtside := by
    refine byte_of_not_mem 0 hb fun t ht => ?_
    rw [Nat.zero_add]
    exact houtside t ht

end Scriptorium.Editor
