import Mathlib
import VisualEncoding.Scalar.Double

/-!
# The parts of a double

What the bits of a double say: a finite one is a mantissa with an exponent, of 53 bits or at the least exponent
(`IsCanonical`), and such parts are stored and read back as they are (`IsCanonical.unpack_pack`).
-/

namespace VisualEncoding.Double

open Float.Model
open Float.Model.UnpackedFloat (Sign packComponents unpackSign unpackExponent unpackMantissa)

/-- The mantissa of a normal number has a leading one that its bits leave out. -/
theorem toNat_unpackedMantissa (m : BitVec 52) : (1#1 ++ m).toNat = 2 ^ 52 + m.toNat := by
  rw [BitVec.toNat_append, ← Nat.shiftLeft_add_eq_or_of_lt m.isLt]
  rfl

/-- The bits of a finite number: infinity if its exponent is too large, else a normal or a subnormal one. -/
theorem pack_finite (s : Sign) {m : Nat} (e : Int) (hm : 0 < m) :
    UnpackedFloat.pack Format.binary64 (.finite s m e hm)
      = if 2 ^ 11 ≤ (e + 1075).toNat + 1 then UnpackedFloat.packedInfinity Format.binary64 s
        else if m.log2 = 52 then
          packComponents Format.binary64 s (BitVec.ofNat 11 (e + 1075).toNat) (BitVec.ofNat 52 m)
        else packComponents Format.binary64 s (0#11) (BitVec.ofNat 52 m) := by
  have hbias : e + (Format.binary64.exponentBias : Int) + ((52 : Nat) : Int) = e + 1075 := by
    show e + 1023 + 52 = e + 1075
    omega
  have hbits : (m.log2 + 1 = Format.binary64.mantissaBits) = (m.log2 = 52) := by
    show (m.log2 + 1 = 53) = (m.log2 = 52)
    simp
  unfold UnpackedFloat.pack
  dsimp only
  rw [hbias]
  simp only [hbits]

/-- A mantissa and an exponent as they are read from the bits of a double. -/
structure IsCanonical (m : ℕ) (e : ℤ) : Prop where
  lt : m < 2 ^ 53
  le_exponent : -1074 ≤ e
  exponent_le : e ≤ 971
  normal : 2 ^ 52 ≤ m ∨ e = -1074

theorem isCanonical_of_unpack {b : BitVec 64} {s : Sign} {m : ℕ} {e : ℤ} {hm : 0 < m}
    (h : UnpackedFloat.unpack Format.binary64 b = .finite s m e hm) : IsCanonical m e := by
  have hsize : (@unpackExponent Format.binary64 b).toNat < 2 ^ 11 := BitVec.isLt _
  have hfraction : (@unpackMantissa Format.binary64 b).toNat < 2 ^ 52 := BitVec.isLt _
  unfold UnpackedFloat.unpack at h
  dsimp only at h
  split at h
  next => split at h <;> nomatch h
  next hones =>
    have hfinite : (@unpackExponent Format.binary64 b).toNat ≠ 2047 := fun hall => hones (BitVec.eq_of_toNat_eq hall)
    split at h
    next hzero =>
      split at h
      · nomatch h
      · obtain ⟨-, hmantissa, hexponent⟩ := UnpackedFloat.finite.inj h
        rw [hzero] at hexponent
        have hexponent : (0 : ℤ) - (1023 + 52) + 1 = e := hexponent
        exact ⟨by omega, by omega, by omega, .inr (by omega)⟩
    next hnonzero =>
      have hpos : (@unpackExponent Format.binary64 b).toNat ≠ 0 := fun hnone => hnonzero (BitVec.eq_of_toNat_eq hnone)
      obtain ⟨-, hmantissa, hexponent⟩ := UnpackedFloat.finite.inj h
      have hmantissa : 2 ^ 52 + (@unpackMantissa Format.binary64 b).toNat = m :=
        (toNat_unpackedMantissa _).symm.trans hmantissa
      have hexponent : ((@unpackExponent Format.binary64 b).toNat : ℤ) - (1023 + 52) = e := hexponent
      exact ⟨by omega, by omega, by omega, .inl (by omega)⟩

/-- Such a mantissa and exponent are read back from the bits. -/
theorem IsCanonical.unpack_pack {m : ℕ} {e : ℤ} (h : IsCanonical m e) (s : Sign) (hm : 0 < m) :
    UnpackedFloat.unpack Format.binary64 (UnpackedFloat.pack Format.binary64 (.finite s m e hm)) = .finite s m e hm := by
  have hlt := h.lt
  have hlo := h.le_exponent
  have hhi := h.exponent_le
  rw [pack_finite, if_neg (by omega)]
  by_cases hlog : m.log2 = 52
  · rw [if_pos hlog]
    unfold UnpackedFloat.unpack
    have hleast : 2 ^ 52 ≤ m := hlog ▸ Nat.log2_self_le hm.ne'
    have hexponent : (BitVec.ofNat 11 (e + 1075).toNat).toNat = (e + 1075).toNat := by
      rw [BitVec.toNat_ofNat, Nat.mod_eq_of_lt (by omega)]
    have hmantissa : (1#1 ++ BitVec.ofNat 52 m).toNat = m := by
      rw [toNat_unpackedMantissa, BitVec.toNat_ofNat]
      omega
    have hones : BitVec.ofNat 11 (e + 1075).toNat ≠ -1#11 := by
      intro hall
      rw [hall] at hexponent
      have hexponent : 2047 = (e + 1075).toNat := hexponent
      omega
    have hzero : BitVec.ofNat 11 (e + 1075).toNat ≠ 0#11 := by
      intro hnone
      rw [hnone] at hexponent
      have hexponent : 0 = (e + 1075).toNat := hexponent
      omega
    simp only [UnpackedFloat.unpackExponent_packComponents, UnpackedFloat.unpackMantissa_packComponents,
      UnpackedFloat.unpackSign_packComponents, UnpackedFloat.Sign.ofBitVec_toBitVec]
    rw [if_neg hones, if_neg hzero]
    congr 1
    rw [hexponent]
    show ((e + 1075).toNat : ℤ) - (1023 + 52) = e
    omega
  · rw [if_neg hlog]
    unfold UnpackedFloat.unpack
    have hless : m < 2 ^ 52 := by
      by_contra hnot
      exact hlog ((Nat.log2_eq_iff hm.ne').mpr ⟨by omega, by omega⟩)
    obtain rfl : e = -1074 := h.normal.resolve_left (by omega)
    have hmantissa : (BitVec.ofNat 52 m).toNat = m := by
      rw [BitVec.toNat_ofNat, Nat.mod_eq_of_lt hless]
    have hzero : BitVec.ofNat 52 m ≠ 0#52 := by
      intro hnone
      rw [hnone] at hmantissa
      exact hm.ne hmantissa
    simp only [UnpackedFloat.unpackExponent_packComponents, UnpackedFloat.unpackMantissa_packComponents,
      UnpackedFloat.unpackSign_packComponents, UnpackedFloat.Sign.ofBitVec_toBitVec]
    rw [if_neg (by decide), if_pos trivial, dif_neg hzero]
    congr 1

/-! ## Mantissas to be rounded -/

theorem targetExponent_eq (t : Int) : Format.binary64.targetExponent t = max (t - 53) (-1074) := rfl

theorem log2_le_of_lt {m n : Nat} (h : m < 2 ^ (n + 1)) : m.log2 ≤ n := by
  rcases Nat.eq_zero_or_pos m with rfl | hm
  · exact Nat.zero_le n
  · exact Nat.le_of_lt_succ ((Nat.log2_lt (Nat.ne_of_gt hm)).mpr h)

open UnpackedFloat (Accuracy ExtendedMantissa shiftToTargetExponent roundWithAccuracy divCore)

theorem mantissa_ofMantissaAndAccuracy (m : Nat) (accuracy : Accuracy) :
    (ExtendedMantissa.ofMantissaAndAccuracy m accuracy).mantissa = m := by
  rcases accuracy with _ | _ | _ | _ <;> rfl

theorem roundToNearestEven_le (m : Nat) (accuracy : Accuracy) :
    accuracy.roundToNearestEven m ≤ m + 1 := by
  rcases accuracy with _ | _ | _ | _
  · exact Nat.le_succ m
  · exact Nat.le_succ m
  · show m + m % 2 ≤ m + 1
    omega
  · exact Nat.le_refl _

end VisualEncoding.Double
