import Mathlib
import PanelBus.Checksum
/-!
# The register as a remainder

The register and the data stand for polynomials over the two-element field.  A shift of the register
is a product with `x` modulo the generator, so what is left after the data is the remainder of a
division, and data that end in their own remainder leave nothing.
-/

namespace PanelBus.Crc16

open Polynomial

/-! ## Polynomials -/

/-- The polynomial in which bit `i` is the coefficient of `x^i`. -/
noncomputable def toPoly {w : Nat} (v : BitVec w) : (ZMod 2)[X] :=
  ∑ i ∈ Finset.range w, monomial i (if v.getLsbD i then 1 else 0)

/-- The polynomial of data: the first octet stands highest. -/
noncomputable def ofData : Bytes → (ZMod 2)[X]
  | [] => 0
  | b :: rest => toPoly b.toBitVec * X ^ (8 * rest.length) + ofData rest

/-- The generator with its leading term. -/
noncomputable def divisor : (ZMod 2)[X] := X ^ 16 + X ^ 12 + X ^ 5 + 1

variable {w : Nat}

theorem coeff_toPoly (v : BitVec w) (i : Nat) :
    (toPoly v).coeff i = if v.getLsbD i then 1 else 0 := by
  unfold toPoly
  simp only [finsetSum_coeff, coeff_monomial, Finset.sum_ite_eq', Finset.mem_range]
  split
  · rfl
  · next hi => rw [BitVec.getLsbD_of_ge v i (not_lt.mp hi)]; rfl

theorem toPoly_injective : Function.Injective (toPoly (w := w)) := by
  intro a b h
  apply BitVec.eq_of_getLsbD_eq
  intro i _
  have hbit := congrArg (fun p => p.coeff i) h
  simp only [coeff_toPoly] at hbit
  cases ha : a.getLsbD i <;> cases hb : b.getLsbD i <;> simp_all

theorem toPoly_zero : toPoly (0 : BitVec w) = 0 := by
  ext i
  simp [coeff_toPoly]

theorem degree_toPoly_lt (v : BitVec w) : (toPoly v).degree < w := by
  rw [degree_lt_iff_coeff_zero]
  intro i hi
  rw [coeff_toPoly, BitVec.getLsbD_of_ge v i hi]
  rfl

/-- The exclusive or is the sum. -/
theorem toPoly_xor (a b : BitVec w) : toPoly (a ^^^ b) = toPoly a + toPoly b := by
  ext i
  simp only [coeff_add, coeff_toPoly, BitVec.getLsbD_xor]
  cases a.getLsbD i <;> cases b.getLsbD i <;> decide

theorem toPoly_twoPow {k : Nat} (hk : k < w) : toPoly (BitVec.twoPow w k) = X ^ k := by
  ext i
  rw [coeff_toPoly, coeff_X_pow, BitVec.getLsbD_twoPow]
  simp [hk, eq_comm]

theorem toPoly_generator : toPoly generator = X ^ 12 + X ^ 5 + 1 := by
  have hbits : generator = .twoPow 16 12 ^^^ .twoPow 16 5 ^^^ .twoPow 16 0 := by decide
  rw [hbits, toPoly_xor, toPoly_xor, toPoly_twoPow (by decide), toPoly_twoPow (by decide),
    toPoly_twoPow (by decide), pow_zero]

theorem monic_divisor : divisor.Monic := by
  unfold divisor
  monicity!

theorem degree_divisor : divisor.degree = 16 := by
  unfold divisor
  compute_degree!

/-- The bit that a shift drops is the coefficient of `x^16`. -/
theorem toPoly_shiftLeft_one (crc : BitVec 16) :
    toPoly (crc <<< 1) + (if crc.msb then X ^ 16 else 0) = X * toPoly crc := by
  ext i
  cases i with
  | zero => cases crc.msb <;> simp [coeff_toPoly]
  | succ i =>
    rw [coeff_X_mul, coeff_add, coeff_toPoly, coeff_toPoly, BitVec.getLsbD_shiftLeft,
      BitVec.msb_eq_getLsbD_last]
    by_cases htop : i = 15
    · subst htop
      cases crc.getLsbD 15 <;> simp
    · have hcoeff :
          (if crc.getLsbD (16 - 1) then X ^ 16 else 0 : (ZMod 2)[X]).coeff (i + 1) = 0 := by
        split
        · rw [coeff_X_pow, if_neg (by omega)]
        · rw [coeff_zero]
      rw [hcoeff, add_zero]
      by_cases hi : i + 1 < 16
      · simp [hi]
      · simp [hi, BitVec.getLsbD_of_ge crc i (by omega)]

/-- An octet enters at the top of the register. -/
theorem toPoly_octet (b : UInt8) :
    toPoly (b.toBitVec.setWidth 16 <<< 8) = toPoly b.toBitVec * X ^ 8 := by
  ext i
  rw [coeff_mul_X_pow', coeff_toPoly, coeff_toPoly, BitVec.getLsbD_shiftLeft,
    BitVec.getLsbD_setWidth]
  by_cases hlow : i < 8
  · simp [hlow, not_le.mpr hlow]
  · by_cases hhigh : i < 16
    · simp [hlow, hhigh, not_lt.mp hlow, show i - 8 < 16 by omega]
    · simp [hlow, hhigh, not_lt.mp hlow, BitVec.getLsbD_of_ge b.toBitVec (i - 8) (by omega)]

/-- The two octets of a register hold its polynomial. -/
theorem ofData_octets (crc : BitVec 16) : ofData (octets crc) = toPoly crc := by
  ext i
  simp only [octets, ofData, coeff_add, coeff_mul_X_pow', coeff_toPoly, List.length_cons,
    List.length_nil, BitVec.getLsbD_setWidth, BitVec.getLsbD_ushiftRight]
  by_cases hlow : i < 8
  · simp [hlow, not_le.mpr hlow]
  · by_cases hhigh : i < 16
    · simp [hlow, not_lt.mp hlow, show i - 8 < 8 by omega, show 8 + (i - 8) = i by omega]
    · simp [hlow, not_lt.mp hlow, show ¬i - 8 < 8 by omega,
        BitVec.getLsbD_of_ge crc i (not_lt.mp hhigh)]

/-! ## Residues -/

/-- The residue of a polynomial modulo the generator. -/
noncomputable def residue : (ZMod 2)[X] →+* AdjoinRoot divisor := AdjoinRoot.mk divisor

theorem residue_shift (crc : BitVec 16) :
    residue (toPoly (shift crc)) = residue (X * toPoly crc) := by
  have hdivisor : residue (toPoly generator) = residue (X ^ 16) := by
    apply AdjoinRoot.mk_eq_mk.mpr
    refine ⟨1, ?_⟩
    rw [toPoly_generator, divisor, CharTwo.sub_eq_add]
    ring
  rw [← toPoly_shiftLeft_one, map_add]
  unfold shift
  split
  · rw [toPoly_xor, map_add, hdivisor]
  · rw [map_zero, add_zero]

theorem residue_shiftOctet (crc : BitVec 16) :
    residue (toPoly (shiftOctet crc)) = residue (X ^ 8 * toPoly crc) := by
  unfold shiftOctet
  simp only [residue_shift, map_mul, map_pow]
  ring

theorem residue_feed (crc : BitVec 16) (b : UInt8) :
    residue (toPoly (feed crc b)) =
      residue (toPoly crc * X ^ 8 + toPoly b.toBitVec * X ^ 16) := by
  unfold feed
  rw [residue_shiftOctet, toPoly_xor, toPoly_octet]
  exact congrArg residue (by ring)

theorem residue_compute (init : BitVec 16) (data : Bytes) :
    residue (toPoly (compute init data)) =
      residue (ofData data * X ^ 16 + toPoly init * X ^ (8 * data.length)) := by
  induction data generalizing init with
  | nil =>
      rw [ofData, zero_mul, zero_add, List.length_nil, Nat.mul_zero, pow_zero, mul_one]
      rfl
  | cons b rest ih =>
      have hgrown (p q : (ZMod 2)[X]) : residue (q + p * X ^ (8 * rest.length)) =
          residue q + residue p * residue (X ^ (8 * rest.length)) := by
        rw [map_add, map_mul]
      calc residue (toPoly (compute (feed init b) rest))
          = residue (ofData rest * X ^ 16 + (toPoly init * X ^ 8 + toPoly b.toBitVec * X ^ 16) *
              X ^ (8 * rest.length)) := by rw [ih, hgrown, residue_feed, ← hgrown]
        _ = residue (ofData (b :: rest) * X ^ 16 +
              toPoly init * X ^ (8 * (b :: rest).length)) := by
            rw [ofData, List.length_cons]
            exact congrArg residue (by ring)

/-- A register is the only one with its residue. -/
theorem toPoly_eq_modByMonic {crc : BitVec 16} {p : (ZMod 2)[X]}
    (h : residue (toPoly crc) = residue p) : toPoly crc = p %ₘ divisor := by
  have hdegree : (toPoly crc).degree < divisor.degree := by
    rw [degree_divisor]
    exact degree_toPoly_lt crc
  rw [← (modByMonic_eq_self_iff monic_divisor).mpr hdegree]
  exact modByMonic_eq_of_dvd_sub monic_divisor (AdjoinRoot.mk_eq_mk.mp h)

/-- Fed with its own octets, a register becomes zero. -/
theorem compute_octets (crc : BitVec 16) : compute crc (octets crc) = 0 := by
  have hresidue : residue (toPoly (compute crc (octets crc))) = residue 0 := by
    rw [residue_compute, ofData_octets]
    exact congrArg residue (CharTwo.add_self_eq_zero _)
  apply toPoly_injective
  rw [toPoly_eq_modByMonic hresidue, zero_modByMonic, toPoly_zero]

/-- The register after the data is the remainder of the data, with the initial register in front,
by the generator.  So data may be fed in parts, and data that are followed by their own check leave
nothing. -/
theorem compute_remainder (init : BitVec 16) (data : Bytes) :
    toPoly (compute init data) =
        (ofData data * X ^ 16 + toPoly init * X ^ (8 * data.length)) %ₘ divisor ∧
      (∀ more, compute init (data ++ more) = compute (compute init data) more) ∧
      ∀ header, compute 0 (data ++ Checksum.Double.crcCcittXmodem.compute header data) = 0 := by
  refine ⟨toPoly_eq_modByMonic (residue_compute init data), compute_append init data, ?_⟩
  intro header
  change compute 0 (data ++ octets (compute 0 data)) = 0
  rw [compute_append, compute_octets]

end PanelBus.Crc16
