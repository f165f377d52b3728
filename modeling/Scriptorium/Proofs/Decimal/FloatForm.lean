import Mathlib
import Scriptorium.Decimal.Read
import Scriptorium.Proofs.Decimal.Rounding

/-!
# The form of floats

A finite float is a zero, or it has a sign and a canonical mantissa and exponent, which `decode` finds in its
bits (`finite_cases`). The arithmetic of floats finds the same ones (`unpack_ofParts`).
-/

namespace Scriptorium.Decimal

open Float.Model Float.Model.UnpackedFloat

/-! ## Bits -/

section Bits

variable (bits : BitVec Format.binary64.numBits)

theorem toNat_unpackMantissa : (unpackMantissa bits).toNat = bits.toNat % 2 ^ 52 := by
  simp [unpackMantissa]

theorem toNat_unpackExponent : (unpackExponent bits).toNat = bits.toNat / 2 ^ 52 % 2 ^ 11 := by
  simp [unpackExponent, Nat.shiftRight_eq_div_pow]

theorem toNat_unpackSign : (unpackSign bits).toNat = bits.toNat / 2 ^ 63 := by
  have : bits.toNat < 2 ^ 64 := bits.isLt
  simp [unpackSign, Nat.shiftRight_eq_div_pow]
  omega

theorem toNat_packComponents (s : Sign) (e : BitVec 11) (m : BitVec 52) :
    (packComponents .binary64 s e m).toNat = s.toBitVec.toNat * 2 ^ 63 + e.toNat * 2 ^ 52 + m.toNat := by
  rw [packComponents, BitVec.toNat_append, BitVec.toNat_append, ← Nat.shiftLeft_add_eq_or_of_lt m.isLt,
    ← Nat.shiftLeft_add_eq_or_of_lt e.isLt, Nat.shiftLeft_eq, Nat.shiftLeft_eq]
  ring

theorem toBitVec_ofBitVec (v : BitVec 1) : (Sign.ofBitVec v).toBitVec = v := by
  revert v
  decide

theorem ofBitVec_toBitVec (s : Sign) : Sign.ofBitVec s.toBitVec = s := by cases s <;> rfl

/-- A float is made of its components. -/
theorem packComponents_unpack :
    packComponents .binary64 (Sign.ofBitVec (unpackSign bits)) (unpackExponent bits) (unpackMantissa bits) =
      bits := by
  refine BitVec.eq_of_toNat_eq ?_
  rw [toNat_packComponents, toBitVec_ofBitVec, toNat_unpackSign, toNat_unpackExponent, toNat_unpackMantissa]
  omega

theorem unpackSign_packComponents (s : Sign) (e : BitVec 11) (m : BitVec 52) :
    unpackSign (packComponents .binary64 s e m) = s.toBitVec := by
  refine BitVec.eq_of_toNat_eq ?_
  rw [toNat_unpackSign, toNat_packComponents]
  have := e.isLt
  have := m.isLt
  omega

end Bits

/-! ## The form -/

/-- The bits of a float. -/
def bitsOf (x : Float) : BitVec Format.binary64.numBits := x.toBits.toBitVec

/-- The float of a sign, a mantissa and an exponent. -/
def ofParts (s : Sign) (b : Binary) (hpos : 0 < b.mantissa) : Float :=
  .ofModel (.pack (.finite s b.mantissa b.exponent hpos))

/-- The zero of a sign. -/
def ofZero (s : Sign) : Float := .ofModel (.pack (.zero s))

def signOf (x : Float) : Sign := if isNegative x then .negative else .positive

variable {b : Binary} {x : Float}

theorem decode_eq (x : Float) :
    decode x =
      if (unpackExponent (bitsOf x)).toNat = 0 then ⟨(unpackMantissa (bitsOf x)).toNat, -1074⟩
      else ⟨(unpackMantissa (bitsOf x)).toNat + 2 ^ 52, (unpackExponent (bitsOf x)).toNat - 1075⟩ := by
  have hfield : ((x.toBits >>> 52) &&& 0x7FF).toNat = (unpackExponent (bitsOf x)).toNat := by
    rw [toNat_unpackExponent, UInt64.toNat_and, UInt64.toNat_shiftRight]
    exact (Nat.and_two_pow_sub_one_eq_mod _ 11).trans (by rw [Nat.shiftRight_eq_div_pow]; rfl)
  have hfraction : (x.toBits &&& 0xFFFFFFFFFFFFF).toNat = (unpackMantissa (bitsOf x)).toNat := by
    rw [toNat_unpackMantissa, UInt64.toNat_and]
    exact Nat.and_two_pow_sub_one_eq_mod _ 52
  rw [decode]
  simp only [hfield, hfraction]
  rfl

theorem signOf_eq (x : Float) : signOf x = Sign.ofBitVec (unpackSign (bitsOf x)) := by
  have hlt : x.toBits.toNat < 2 ^ 64 := x.toBits.toNat_lt
  have hsign : (x.toBits >>> 63).toNat = (unpackSign (bitsOf x)).toNat := by
    rw [toNat_unpackSign, UInt64.toNat_shiftRight, Nat.shiftRight_eq_div_pow]
    rfl
  rw [signOf, isNegative, Sign.ofBitVec]
  have hone : (x.toBits >>> 63 == 1) = true ↔ ¬ unpackSign (bitsOf x) = 0#1 := by
    rw [beq_iff_eq, ← UInt64.toNat_inj, hsign, ← BitVec.toNat_inj]
    have := (unpackSign (bitsOf x)).isLt
    simp
    omega
  by_cases h : unpackSign (bitsOf x) = 0#1
  · rw [if_pos h, if_neg fun h' => hone.1 h' h]
  · rw [if_neg h, if_pos (hone.2 h)]

theorem bitsOf_pack (u : UnpackedFloat) : bitsOf (.ofModel (.pack u)) = UnpackedFloat.pack .binary64 u := rfl

theorem eq_of_bitsOf {y : Float} (h : bitsOf x = bitsOf y) : x = y := by
  obtain ⟨⟨⟨x⟩, hx⟩⟩ := x
  obtain ⟨⟨⟨y⟩, hy⟩⟩ := y
  obtain rfl : x = y := h
  rfl

theorem pack_finite (s : Sign) (hb : b.Canonical) (hmax : b.exponent ≤ 971) :
    UnpackedFloat.pack .binary64 (.finite s b.mantissa b.exponent hb.pos) =
      if 2 ^ 52 ≤ b.mantissa then
        packComponents .binary64 s (BitVec.ofNat 11 (b.exponent + 1075).toNat) (BitVec.ofNat 52 b.mantissa)
      else packComponents .binary64 s 0#11 (BitVec.ofNat 52 b.mantissa) := by
  have hle := hb.le_exponent
  have hlog : b.mantissa.log2 + 1 = Format.mantissaBits .binary64 ↔ 2 ^ 52 ≤ b.mantissa := by
    have hlt : b.mantissa.log2 < 53 := (Nat.log2_lt hb.pos.ne').2 hb.lt
    have hge : 52 ≤ b.mantissa.log2 ↔ 2 ^ 52 ≤ b.mantissa := Nat.le_log2 hb.pos.ne'
    have hbits : Format.mantissaBits .binary64 = 53 := rfl
    omega
  have hbias : (b.exponent + (Format.exponentBias .binary64 : ℕ) +
      (Format.binary64.mantissaBitsWithoutImplicit : ℕ)).toNat = (b.exponent + 1075).toNat := by
    have h : Format.exponentBias .binary64 = 1023 := rfl
    have h' : Format.binary64.mantissaBitsWithoutImplicit = 52 := rfl
    rw [h, h', add_assoc]
    rfl
  have hfits : ¬ 2 ^ Format.binary64.exponentBits ≤ (b.exponent + 1075).toNat + 1 := by
    show ¬ 2 ^ 11 ≤ _
    omega
  rw [UnpackedFloat.pack]
  simp only [hbias, hlog, if_neg hfits]

/-- A float that is no NaN and no infinity is a zero, or it has the canonical form that is read off its bits. -/
theorem finite_cases (hnan : x.isNaN = false) (hinf : x.isInf = false) :
    ((decode x).mantissa = 0 ∧ x = ofZero (signOf x)) ∨
      ∃ hb : (decode x).Canonical, (decode x).exponent ≤ 971 ∧ x = ofParts (signOf x) (decode x) hb.pos := by
  have hexponent : (unpackExponent (bitsOf x)).toNat ≠ 2047 := by
    intro h
    have hall : unpackExponent (bitsOf x) = -1#_ := BitVec.eq_of_toNat_eq h
    change UnpackedFloat.isNaN (UnpackedFloat.unpack .binary64 (bitsOf x)) = false at hnan
    change UnpackedFloat.isInf (UnpackedFloat.unpack .binary64 (bitsOf x)) = false at hinf
    rw [UnpackedFloat.unpack] at hnan hinf
    simp only [hall, if_true] at hnan hinf
    split at hnan
    · next hm =>
      rw [if_pos hm] at hinf
      cases hinf
    · cases hnan
  have hlt : (unpackMantissa (bitsOf x)).toNat < 2 ^ 52 := (unpackMantissa (bitsOf x)).isLt
  have hlt' : (unpackExponent (bitsOf x)).toNat < 2 ^ 11 := (unpackExponent (bitsOf x)).isLt
  have hbits : bitsOf x =
      packComponents .binary64 (signOf x) (unpackExponent (bitsOf x)) (unpackMantissa (bitsOf x)) := by
    rw [signOf_eq, packComponents_unpack]
  by_cases hzero : (unpackExponent (bitsOf x)).toNat = 0
  · have hexp : unpackExponent (bitsOf x) = 0#11 := BitVec.eq_of_toNat_eq hzero
    have hdecode := decode_eq x
    rw [if_pos hzero] at hdecode
    by_cases hmantissa : (unpackMantissa (bitsOf x)).toNat = 0
    · have hm : unpackMantissa (bitsOf x) = 0#52 := BitVec.eq_of_toNat_eq hmantissa
      refine .inl ⟨by rw [hdecode, hmantissa], eq_of_bitsOf ?_⟩
      rw [hbits, hexp, hm]
      rfl
    · have hb : (decode x).Canonical := by
        rw [hdecode]
        exact ⟨Nat.pos_of_ne_zero hmantissa, hlt.trans (by norm_num), le_refl _, .inr rfl⟩
      have hmax : (decode x).exponent ≤ 971 := by
        rw [hdecode]
        show (-1074 : ℤ) ≤ 971
        norm_num
      refine .inr ⟨hb, hmax, eq_of_bitsOf ?_⟩
      rw [ofParts, bitsOf_pack, pack_finite _ hb hmax, hdecode, if_neg (Nat.not_le.2 hlt)]
      conv_lhs => rw [hbits, hexp]
      exact congrArg _ (BitVec.eq_of_toNat_eq (Nat.mod_eq_of_lt hlt).symm)
  · have hdecode := decode_eq x
    rw [if_neg hzero] at hdecode
    have hb : (decode x).Canonical := by
      rw [hdecode]
      refine ⟨Nat.add_pos_right _ (by norm_num), ?_, ?_, .inl (Nat.le_add_left _ _)⟩
      · show _ + 2 ^ 52 < 2 ^ 53
        omega
      · show (-1074 : ℤ) ≤ _ - 1075
        omega
    have hmax : (decode x).exponent ≤ 971 := by
      rw [hdecode]
      show _ - (1075 : ℤ) ≤ 971
      omega
    refine .inr ⟨hb, hmax, eq_of_bitsOf ?_⟩
    rw [ofParts, bitsOf_pack, pack_finite _ hb hmax, hdecode, if_pos (Nat.le_add_left _ _)]
    conv_lhs => rw [hbits]
    refine congrArg₂ _ (BitVec.eq_of_toNat_eq ?_) (BitVec.eq_of_toNat_eq ?_)
    · rw [BitVec.toNat_ofNat]
      show _ = (_ - 1075 + (1075 : ℤ)).toNat % 2 ^ 11
      rw [sub_add_cancel, Int.toNat_natCast, Nat.mod_eq_of_lt hlt']
    · rw [BitVec.toNat_ofNat]
      show _ = (_ + 2 ^ 52) % 2 ^ 52
      rw [Nat.add_mod_right, Nat.mod_eq_of_lt hlt]

theorem finite_congr {s : Sign} {m m' : ℕ} {e e' : ℤ} {h : 0 < m} (hm : m = m') (he : e = e') :
    UnpackedFloat.finite s m e h = .finite s m' e' (hm ▸ h) := by
  cases hm
  cases he
  rfl

/-- A canonical form is read back from the float that it was packed in. -/
theorem unpack_ofParts (s : Sign) (hb : b.Canonical) (hmax : b.exponent ≤ 971) :
    (ofParts s b hb.pos).toModel.unpack = .finite s b.mantissa b.exponent hb.pos := by
  show UnpackedFloat.unpack .binary64 (UnpackedFloat.pack .binary64 _) = _
  rw [pack_finite s hb hmax]
  have hle := hb.le_exponent
  have hlt := hb.lt
  by_cases hfull : 2 ^ 52 ≤ b.mantissa
  · have hexp : (BitVec.ofNat 11 (b.exponent + 1075).toNat).toNat = (b.exponent + 1075).toNat := by
      rw [BitVec.toNat_ofNat, Nat.mod_eq_of_lt (by omega)]
    have hmantissa : (1#1 ++ BitVec.ofNat 52 b.mantissa).toNat = b.mantissa := by
      rw [BitVec.toNat_append, ← Nat.shiftLeft_add_eq_or_of_lt (BitVec.isLt _), Nat.shiftLeft_eq,
        BitVec.toNat_ofNat, BitVec.toNat_ofNat]
      omega
    have hnot (n : ℕ) (hn : n < 2 ^ 11) (hne : (b.exponent + 1075).toNat ≠ n) :
        BitVec.ofNat 11 (b.exponent + 1075).toNat ≠ BitVec.ofNat 11 n := by
      intro h
      rw [← BitVec.toNat_inj, hexp, BitVec.toNat_ofNat, Nat.mod_eq_of_lt hn] at h
      exact hne h
    have hones : BitVec.ofNat 11 (b.exponent + 1075).toNat ≠ -1#11 := hnot 2047 (by norm_num) (by omega)
    have hzero : BitVec.ofNat 11 (b.exponent + 1075).toNat ≠ 0#11 := hnot 0 (by norm_num) (by omega)
    rw [if_pos hfull, UnpackedFloat.unpack]
    simp only [unpackExponent_packComponents, unpackMantissa_packComponents, unpackSign_packComponents,
      ofBitVec_toBitVec, if_neg hones, if_neg hzero]
    refine finite_congr hmantissa ?_
    rw [hexp]
    show _ - ((1023 : ℤ) + 52) = _
    omega
  · have hleast := hb.full.resolve_left hfull
    have hmantissa : (BitVec.ofNat 52 b.mantissa).toNat = b.mantissa := by
      rw [BitVec.toNat_ofNat, Nat.mod_eq_of_lt (by omega)]
    have hzero : BitVec.ofNat 52 b.mantissa ≠ 0#52 := by
      intro h
      rw [← BitVec.toNat_inj, hmantissa] at h
      exact hb.pos.ne' h
    have hones : (0#11 : BitVec 11) ≠ -1#11 := by decide
    rw [if_neg hfull, UnpackedFloat.unpack]
    simp only [unpackExponent_packComponents, unpackMantissa_packComponents, unpackSign_packComponents,
      ofBitVec_toBitVec, if_neg hones, if_true, dif_neg hzero]
    refine finite_congr hmantissa ?_
    rw [hleast]
    rfl

end Scriptorium.Decimal
