import PanelBus.Proofs.Binary64
/-!
# Whole numbers of the binary format

Below `2 ^ 53` every whole number belongs to the format.  Taking it into the format and rounding it
back to a whole number changes nothing.  A word of 64 bits from `2 ^ 53` on may be rounded, but it
stays finite and does not fall below that bound.
-/

namespace PanelBus.Binary64

theorem roundHalfEven_one (num : Nat) : roundHalfEven num 1 = num := by
  unfold roundHalfEven
  dsimp only
  rw [Nat.mod_one, Nat.div_one]
  exact if_pos Nat.one_pos

/-- A whole number below `2 ^ 53` is kept as it is, as a multiple of a power of two. -/
theorem ofInt_exact {n : Int} (h : n.natAbs < 2 ^ 53) :
    ∃ e : Int, e ≤ 0 ∧ ofInt n = .finite (decide (n < 0)) (n.natAbs * twoPow (-e)) e := by
  unfold ofInt
  generalize n.natAbs = num at h
  by_cases hnum : num = 0
  · refine ⟨minExponent, by decide, ?_⟩
    unfold ofRatio
    rw [if_pos hnum, hnum, Nat.zero_mul]
  · have hlog : num.log2 < 53 := (Nat.log2_lt hnum).2 h
    have hleast : max (floorLog2 num 1 - 52) minExponent = (num.log2 : Int) - 52 := by
      have hmin : minExponent = -1074 := rfl
      rw [floorLog2_one hnum]
      omega
    have hscaled : num * twoPow (-((num.log2 : Int) - 52)) < twoPow 53 := by
      have hexponent : (-((num.log2 : Int) - 52)).toNat = 52 - num.log2 := by omega
      unfold twoPow
      rw [hexponent]
      calc num * 2 ^ (52 - num.log2)
          < 2 ^ (num.log2 + 1) * 2 ^ (52 - num.log2) :=
            Nat.mul_lt_mul_of_pos_right Nat.lt_log2_self (Nat.two_pow_pos _)
        _ = 2 ^ 53 := by rw [← Nat.pow_add]; congr 1; omega
    refine ⟨(num.log2 : Int) - 52, by omega, ?_⟩
    unfold ofRatio
    rw [if_neg hnum, hleast]
    dsimp only
    rw [twoPow_of_nonpos (by omega : (num.log2 : Int) - 52 ≤ 0), Nat.one_mul, roundHalfEven_one,
      if_neg (Nat.ne_of_lt hscaled)]
    have hmax : maxExponent = 971 := rfl
    exact if_neg (by dsimp only; omega)

variable {n : Int}

theorem signed_natAbs (n : Int) :
    (if decide (n < 0) = true then -(n.natAbs : Int) else n.natAbs) = n := by
  simp only [decide_eq_true_eq]
  split <;> omega

theorem isWhole_ofInt (h : n.natAbs < 2 ^ 53) : (ofInt n).isWhole = true := by
  obtain ⟨e, -, heq⟩ := ofInt_exact h
  rw [heq]
  exact beq_iff_eq.2 (Nat.mul_mod_left _ _)

theorem trunc?_ofInt (h : n.natAbs < 2 ^ 53) : (ofInt n).trunc? = some n := by
  obtain ⟨e, he, heq⟩ := ofInt_exact h
  have hwhole : wholePart (n.natAbs * twoPow (-e)) e = n.natAbs := by
    unfold wholePart
    rw [twoPow_of_nonpos he, Nat.mul_one, Nat.mul_div_cancel _ (twoPow_pos _)]
  rw [heq]
  unfold trunc?
  dsimp only
  rw [hwhole, signed_natAbs]

theorem round?_ofInt (h : n.natAbs < 2 ^ 53) : (ofInt n).round? = some n := by
  obtain ⟨e, he, heq⟩ := ofInt_exact h
  have hhalf : (2 * (n.natAbs * twoPow (-e) * twoPow e) + twoPow (-e)) / (2 * twoPow (-e)) =
      n.natAbs := by
    have hpos := twoPow_pos (-e)
    rw [twoPow_of_nonpos he, Nat.mul_one]
    have hsplit : 2 * (n.natAbs * twoPow (-e)) + twoPow (-e) =
        twoPow (-e) + 2 * twoPow (-e) * n.natAbs := by ring
    rw [hsplit, Nat.add_mul_div_left _ _ (by omega), Nat.div_eq_of_lt (by omega), Nat.zero_add]
  rw [heq]
  unfold round?
  dsimp only
  rw [hhalf, signed_natAbs]

theorem magnitudeBelow_ofInt (h : n.natAbs < 2 ^ 53) (bound : Nat) :
    (ofInt n).magnitudeBelow bound = decide (n.natAbs < bound) := by
  obtain ⟨e, he, heq⟩ := ofInt_exact h
  rw [heq]
  unfold magnitudeBelow
  dsimp only
  rw [twoPow_of_nonpos he, Nat.mul_one, decide_eq_decide]
  exact Nat.mul_lt_mul_right (twoPow_pos _)

theorem clamp_of_small (h : n.natAbs < 2 ^ 63) : Word.clamp n = n := by
  have hleast : Word.least = -2 ^ 63 := rfl
  have hgreatest : Word.greatest = 2 ^ 63 - 1 := rfl
  unfold Word.clamp
  rw [if_neg (by omega), if_neg (by omega)]

theorem truncWord_ofInt (h : n.natAbs < 2 ^ 53) : (ofInt n).truncWord = n := by
  unfold truncWord
  rw [trunc?_ofInt h]
  exact clamp_of_small (by omega)

/-! ## Whole numbers that may be rounded -/

theorem isFinite_ofInt (h : n.natAbs < 2 ^ 64) : (ofInt n).isFinite = true :=
  isFinite_ofRatio _ 1 h (by decide)

/-- Rounding does not bring a whole number down below `2 ^ 53`. -/
theorem magnitudeBelow_ofInt_of_large {bound : Nat} (hbound : bound ≤ 2 ^ 53)
    (h : 2 ^ 53 ≤ n.natAbs) : (ofInt n).magnitudeBelow bound = false := by
  unfold ofInt
  generalize n.natAbs = num at h
  have hnum : num ≠ 0 := by omega
  obtain ⟨significand, exponent, heq, hcases⟩ := ofRatio_eq (decide (n < 0)) hnum 1
  have hlog : 53 ≤ num.log2 := (Nat.le_log2 hnum).2 h
  have hleast : max (floorLog2 num 1 - 52) minExponent = (num.log2 : Int) - 52 := by
    have hmin : minExponent = -1074 := rfl
    rw [floorLog2_one hnum]
    omega
  have hpower : twoPow 52 * twoPow ((num.log2 : Int) - 52) = 2 ^ num.log2 := by
    unfold twoPow
    rw [Nat.pow_eq, Nat.pow_eq, ← Nat.pow_add]
    congr 1
    omega
  dsimp only at hcases
  rw [hleast, twoPow_of_nonpos (by omega : -((num.log2 : Int) - 52) ≤ 0), Nat.mul_one,
    Nat.one_mul] at hcases
  -- The significand has 53 digits, and the exponent makes up for the rest.
  have hdigits : twoPow 52 ≤ significand ∧ (num.log2 : Int) - 52 ≤ exponent := by
    rcases hcases with ⟨rfl, rfl⟩ | ⟨rfl, rfl⟩
    · refine ⟨?_, le_refl _⟩
      calc twoPow 52 ≤ num / twoPow ((num.log2 : Int) - 52) :=
            (Nat.le_div_iff_mul_le (twoPow_pos _)).2 (hpower ▸ Nat.log2_self_le hnum)
        _ ≤ roundHalfEven num (twoPow ((num.log2 : Int) - 52)) := (roundHalfEven_bounds _ _).1
    · exact ⟨le_refl _, by omega⟩
  have hlarge : 2 ^ 53 ≤ significand * twoPow exponent :=
    calc 2 ^ 53 ≤ 2 ^ num.log2 := Nat.pow_le_pow_right (by decide) hlog
      _ = twoPow 52 * twoPow ((num.log2 : Int) - 52) := hpower.symm
      _ ≤ significand * twoPow exponent := Nat.mul_le_mul hdigits.1 (twoPow_le hdigits.2)
  rw [heq]
  split
  · rfl
  · unfold magnitudeBelow
    dsimp only
    rw [twoPow_of_nonpos (by omega : -exponent ≤ 0), Nat.mul_one]
    exact decide_eq_false (by omega)

end PanelBus.Binary64
