import Mathlib.Logic.Function.Basic
import PanelBus.Crc16
/-!
# The register of the cyclic check

No two registers become one by a shift, since the lowest bit tells whether the generator went in.
So an octet that differs, or a register that differed before, still shows at the end of the data.
-/

namespace PanelBus.Crc16

open Function (Injective)

theorem shiftLeft_inj {a b : BitVec 16} (hmsb : a.msb = b.msb) (h : a <<< 1 = b <<< 1) :
    a = b := by
  apply BitVec.eq_of_getLsbD_eq
  intro i hi
  by_cases htop : i = 15
  · subst htop
    rw [BitVec.msb_eq_getLsbD_last, BitVec.msb_eq_getLsbD_last] at hmsb
    exact hmsb
  · have hbit := congrArg (fun c : BitVec 16 => c.getLsbD (i + 1)) h
    rw [BitVec.getLsbD_shiftLeft, BitVec.getLsbD_shiftLeft] at hbit
    simpa [show i + 1 < 16 by omega] using hbit

/-- The lowest bit of a shifted register is the one that went out at the top. -/
theorem getLsbD_shift_zero (crc : BitVec 16) : (shift crc).getLsbD 0 = crc.msb := by
  have hgenerator : generator.getLsbD 0 = true := by decide
  unfold shift
  split
  · next hmsb => rw [BitVec.getLsbD_xor, BitVec.getLsbD_shiftLeft, hgenerator, hmsb]; rfl
  · next hmsb => rw [BitVec.getLsbD_shiftLeft, Bool.eq_false_iff.mpr hmsb]; rfl

theorem shift_injective : Injective shift := by
  intro a b h
  have hmsb : a.msb = b.msb := by
    rw [← getLsbD_shift_zero, ← getLsbD_shift_zero, h]
  apply shiftLeft_inj hmsb
  unfold shift at h
  rw [hmsb] at h
  split at h
  · exact (BitVec.xor_left_inj generator).mp h
  · exact h

theorem shiftOctet_injective : Injective shiftOctet := by
  intro a b h
  unfold shiftOctet at h
  iterate 8 apply shift_injective
  exact h

/-- Different registers stay different. -/
theorem feed_left_injective (b : UInt8) : Injective (feed · b) := by
  intro crc crc' h
  exact (BitVec.xor_left_inj _).mp (shiftOctet_injective h)

/-- Different octets make different registers. -/
theorem feed_right_injective (crc : BitVec 16) : Injective (feed crc) := by
  intro b b' h
  have hshifted := (BitVec.xor_right_inj _).mp (shiftOctet_injective h)
  apply UInt8.toBitVec_inj.mp
  apply BitVec.eq_of_getLsbD_eq
  intro i hi
  have hbit := congrArg (fun c : BitVec 16 => c.getLsbD (i + 8)) hshifted
  rw [BitVec.getLsbD_shiftLeft, BitVec.getLsbD_shiftLeft, BitVec.getLsbD_setWidth,
    BitVec.getLsbD_setWidth] at hbit
  have hinside : ¬i + 8 < 8 := by omega
  simpa [show i + 8 < 16 by omega, show i < 16 by omega, hinside] using hbit

theorem octets_injective : Injective octets := by
  intro a b h
  obtain ⟨hhigh, hlow⟩ : (a >>> 8).setWidth 8 = (b >>> 8).setWidth 8 ∧
      a.setWidth 8 = b.setWidth 8 := by
    simpa [octets] using h
  apply BitVec.eq_of_getLsbD_eq
  intro i hi
  by_cases hsmall : i < 8
  · have hbit := congrArg (fun c : BitVec 8 => c.getLsbD i) hlow
    rw [BitVec.getLsbD_setWidth, BitVec.getLsbD_setWidth] at hbit
    simpa [hsmall] using hbit
  · have hbit := congrArg (fun c : BitVec 8 => c.getLsbD (i - 8)) hhigh
    rw [BitVec.getLsbD_setWidth, BitVec.getLsbD_setWidth, BitVec.getLsbD_ushiftRight,
      BitVec.getLsbD_ushiftRight, show 8 + (i - 8) = i by omega] at hbit
    simpa [show i - 8 < 8 by omega] using hbit

end PanelBus.Crc16
