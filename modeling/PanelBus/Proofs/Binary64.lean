import Mathlib
import PanelBus.Binary64.Basic
/-!
# Sizes of binary numbers

A quotient of whole numbers of 64 bits lies far below the greatest numbers of the format, so that
rounding it never gives an infinity.
-/

namespace PanelBus.Binary64

theorem twoPow_of_nonpos {e : Int} (h : e ≤ 0) : twoPow e = 1 := by
  unfold twoPow
  rw [Int.toNat_of_nonpos h, Nat.pow_eq, Nat.pow_zero]

theorem twoPow_pos (e : Int) : 0 < twoPow e := Nat.pow_pos (by decide)

theorem twoPow_le {d e : Int} (h : d ≤ e) : twoPow d ≤ twoPow e :=
  Nat.pow_le_pow_right (by decide) (Int.toNat_le_toNat h)

theorem roundHalfEven_bounds (num den : Nat) :
    num / den ≤ roundHalfEven num den ∧ roundHalfEven num den ≤ num / den + 1 := by
  unfold roundHalfEven
  dsimp only
  split
  · omega
  · split <;> omega

theorem roundHalfEven_pos {num den bits : Nat} (hden : 0 < den) (hle : den ≤ num)
    (hnum : num < 2 ^ bits) : 0 < roundHalfEven num den ∧ roundHalfEven num den ≤ 2 ^ bits := by
  have hpos := Nat.div_pos hle hden
  have hself := Nat.div_le_self num den
  obtain ⟨hdown, hup⟩ := roundHalfEven_bounds num den
  omega

theorem floorLog2_le (num den : Nat) : floorLog2 num den ≤ num.log2 := by
  unfold floorLog2
  dsimp only
  split <;> omega

theorem floorLog2_one {num : Nat} (h : num ≠ 0) : floorLog2 num 1 = num.log2 := by
  have hone : Nat.log2 1 = 0 := by decide
  unfold floorLog2
  dsimp only
  rw [hone, Int.natCast_zero, Int.sub_zero, twoPow_of_nonpos (by omega : -(num.log2 : Int) ≤ 0)]
  refine if_pos ?_
  rw [Nat.one_mul, Nat.mul_one]
  exact Nat.log2_self_le h

/-- The quotient of positive numbers is rounded to a multiple of a power of two, and once more by
one power when that is the next one. -/
theorem ofRatio_eq (negative : Bool) {num : Nat} (hnum : num ≠ 0) (den : Nat) :
    ∃ significand exponent,
      ofRatio negative num den = (if maxExponent < exponent then .infinity negative
        else .finite negative significand exponent) ∧
      let least := max (floorLog2 num den - 52) minExponent
      let rounded := roundHalfEven (num * twoPow (-least)) (den * twoPow least)
      significand = rounded ∧ exponent = least ∨
        significand = twoPow 52 ∧ exponent = least + 1 := by
  unfold ofRatio
  rw [if_neg hnum]
  dsimp only
  split
  · exact ⟨_, _, rfl, .inr ⟨rfl, rfl⟩⟩
  · exact ⟨_, _, rfl, .inl ⟨rfl, rfl⟩⟩

/-- A quotient is finite if its dividend is below the greatest finite numbers. -/
theorem isFinite_ofRatio (negative : Bool) {num bits : Nat} (den : Nat) (h : num < 2 ^ bits)
    (hbits : bits ≤ 1023) : (ofRatio negative num den).isFinite = true := by
  by_cases hnum : num = 0
  · unfold ofRatio
    rw [if_pos hnum]
    rfl
  · obtain ⟨significand, exponent, heq, hcases⟩ := ofRatio_eq negative hnum den
    have hle := floorLog2_le num den
    have hlog := (Nat.log2_lt hnum).2 h
    have hmin : minExponent = -1074 := rfl
    have hmax : maxExponent = 971 := rfl
    rw [heq, if_neg (by omega)]
    rfl

/-- A whole number of 64 bits that is not zero is a small number of the format. -/
theorem ofInt_eq {n : Int} (hn : n ≠ 0) (hsize : n.natAbs < 2 ^ 64) :
    ∃ negative significand exponent, ofInt n = .finite negative significand exponent ∧
      0 < significand ∧ significand ≤ 2 ^ 117 ∧ -52 ≤ exponent ∧ exponent ≤ 12 := by
  have hnum : n.natAbs ≠ 0 := Int.natAbs_ne_zero.2 hn
  have hlog : n.natAbs.log2 < 64 := (Nat.log2_lt hnum).2 hsize
  obtain ⟨significand, exponent, heq, hcases⟩ := ofRatio_eq (decide (n < 0)) hnum 1
  refine ⟨decide (n < 0), significand, exponent, ?_⟩
  unfold ofInt
  generalize n.natAbs = num at *
  have hmin : minExponent = -1074 := rfl
  have hmax : maxExponent = 971 := rfl
  have hleast : max (floorLog2 num 1 - 52) minExponent = (num.log2 : Int) - 52 := by
    rw [floorLog2_one hnum]
    omega
  dsimp only at hcases
  rw [hleast] at hcases
  have hexponent : -52 ≤ exponent ∧ exponent ≤ 12 := by omega
  rw [heq, if_neg (by omega)]
  refine ⟨rfl, ?_⟩
  rcases hcases with ⟨rfl, _⟩ | ⟨rfl, _⟩
  · have hpower : twoPow ((num.log2 : Int) - 52) ≤ twoPow num.log2 := twoPow_le (by omega)
    have hscale : twoPow (-((num.log2 : Int) - 52)) ≤ 2 ^ 52 := twoPow_le (by omega) (e := 52)
    have hdivisor : twoPow ((num.log2 : Int) - 52) ≤ num * twoPow (-((num.log2 : Int) - 52)) :=
      Nat.le_trans (Nat.le_trans hpower (Nat.log2_self_le hnum))
        (Nat.le_mul_of_pos_right num (twoPow_pos _))
    have hproduct : num * twoPow (-((num.log2 : Int) - 52)) ≤ 2 ^ 64 * 2 ^ 52 :=
      Nat.mul_le_mul (Nat.le_of_lt hsize) hscale
    rw [Nat.one_mul]
    obtain ⟨hpos, hle⟩ := roundHalfEven_pos (twoPow_pos _) hdivisor
      (Nat.lt_of_le_of_lt hproduct (by decide : _ < 2 ^ 117))
    exact ⟨hpos, hle, hexponent⟩
  · exact ⟨by decide, by decide, hexponent⟩

/-- The quotient of two whole numbers of 64 bits is finite. -/
theorem isFinite_div_ofInt {m n : Int} (hm : m ≠ 0) (hn : n ≠ 0) (hdividend : m.natAbs < 2 ^ 64)
    (hdivisor : n.natAbs < 2 ^ 64) : ((ofInt m).div (ofInt n)).isFinite = true := by
  obtain ⟨s₁, m₁, e₁, hfirst, _, hlarge, hlow, hhigh⟩ := ofInt_eq hm hdividend
  obtain ⟨s₂, m₂, e₂, hsecond, hpos, _, hlow', hhigh'⟩ := ofInt_eq hn hdivisor
  rw [hfirst, hsecond]
  unfold div
  dsimp only
  rw [if_neg (Nat.ne_of_gt hpos)]
  have hscale : twoPow (e₁ - min e₁ e₂) ≤ 2 ^ 64 := twoPow_le (by omega) (e := 64)
  have hproduct : m₁ * twoPow (e₁ - min e₁ e₂) ≤ 2 ^ 117 * 2 ^ 64 := Nat.mul_le_mul hlarge hscale
  exact isFinite_ofRatio _ _ (Nat.lt_of_le_of_lt hproduct (by decide : _ < 2 ^ 182)) (by decide)

end PanelBus.Binary64
