import PanelBus.Word
/-!
# Binary floating-point numbers of 64 bits

`Binary64` holds a number of the format with a 53-bit significand as sign, significand and binary
exponent.  Every operation computes the exact rational result and rounds it once, to the nearest
number of the format and to the even significand at a tie.  Core's `Float` runs on hardware and
leaves its conversions opaque; these definitions can be evaluated and reasoned about throughout.
-/

namespace PanelBus

/-- A number of the 64-bit binary format, an infinity, or no number. -/
inductive Binary64 where
  | nan
  | infinity (negative : Bool)
  /-- The number `± significand * 2 ^ exponent`. -/
  | finite (negative : Bool) (significand : Nat) (exponent : Int)
deriving DecidableEq, Repr

namespace Binary64

/-- The exponent of the smallest positive number. -/
def minExponent : Int := -1074

/-- The exponent of the largest finite numbers. -/
def maxExponent : Int := 971

/-- The quotient `num / den` rounded to the nearest whole number, to the even one at a tie. -/
def roundHalfEven (num den : Nat) : Nat :=
  let quotient := num / den
  let twice := 2 * (num % den)
  if twice < den then quotient
  else if den < twice then quotient + 1
  else quotient + quotient % 2

/-- The greatest `k` with `2 ^ k ≤ num / den`, for positive `num` and `den`. -/
def floorLog2 (num den : Nat) : Int :=
  let k : Int := (num.log2 : Int) - (den.log2 : Int)
  if den * twoPow k ≤ num * twoPow (-k) then k else k - 1

/-- The number of the format nearest to `± num / den`, for positive `den`. -/
def ofRatio (negative : Bool) (num den : Nat) : Binary64 :=
  if num = 0 then .finite negative 0 minExponent
  else
    let e := max (floorLog2 num den - 52) minExponent
    let m := roundHalfEven (num * twoPow (-e)) (den * twoPow e)
    -- Rounding up may reach the next power of two.
    let (m, e) := if m = twoPow 53 then (twoPow 52, e + 1) else (m, e)
    if maxExponent < e then .infinity negative else .finite negative m e

/-- The number of the format nearest to `± m * 2 ^ e`. -/
def ofScaled (negative : Bool) (m : Nat) (e : Int) : Binary64 :=
  ofRatio negative (m * twoPow e) (twoPow (-e))

/-- The number of the format nearest to a whole number. -/
def ofInt (n : Int) : Binary64 := ofRatio (n < 0) n.natAbs 1

/-- Positive zero. -/
def zero : Binary64 := ofInt 0

/-- Whether the number is finite. -/
def isFinite : Binary64 → Bool
  | .finite .. => true
  | _ => false

/-- The number with its sign turned. -/
def neg : Binary64 → Binary64
  | .nan => .nan
  | .infinity s => .infinity (!s)
  | .finite s m e => .finite (!s) m e

/-- The number without its sign. -/
def abs : Binary64 → Binary64
  | .nan => .nan
  | .infinity _ => .infinity false
  | .finite _ m e => .finite false m e

/-- A significand with its sign, in units of `2 ^ unit`, for `unit` at most the exponent. -/
def inUnits (negative : Bool) (m : Nat) (e unit : Int) : Int :=
  let n : Int := (m * twoPow (e - unit) : Nat)
  if negative then -n else n

/-- The sum.  An exact sum of zero is negative only if both terms are. -/
def add : Binary64 → Binary64 → Binary64
  | .finite s₁ m₁ e₁, .finite s₂ m₂ e₂ =>
    let unit := min e₁ e₂
    let total := inUnits s₁ m₁ e₁ unit + inUnits s₂ m₂ e₂ unit
    if total = 0 then .finite (s₁ && s₂) 0 minExponent
    else ofScaled (total < 0) total.natAbs unit
  | .infinity s₁, .infinity s₂ => if s₁ = s₂ then .infinity s₁ else .nan
  | .infinity s, .finite .. => .infinity s
  | .finite .., .infinity s => .infinity s
  | _, _ => .nan

/-- The difference. -/
def sub (x y : Binary64) : Binary64 := x.add y.neg

/-- The product. -/
def mul : Binary64 → Binary64 → Binary64
  | .finite s₁ m₁ e₁, .finite s₂ m₂ e₂ => ofScaled (s₁ != s₂) (m₁ * m₂) (e₁ + e₂)
  | .infinity s₁, .infinity s₂ => .infinity (s₁ != s₂)
  | .infinity s₁, .finite s₂ m _ => if m = 0 then .nan else .infinity (s₁ != s₂)
  | .finite s₁ m _, .infinity s₂ => if m = 0 then .nan else .infinity (s₁ != s₂)
  | _, _ => .nan

/-- The quotient. -/
def div : Binary64 → Binary64 → Binary64
  | .finite s₁ m₁ e₁, .finite s₂ m₂ e₂ =>
    if m₂ = 0 then
      if m₁ = 0 then .nan else .infinity (s₁ != s₂)
    else
      let unit := min e₁ e₂
      ofRatio (s₁ != s₂) (m₁ * twoPow (e₁ - unit)) (m₂ * twoPow (e₂ - unit))
  | .infinity s₁, .finite s₂ _ _ => .infinity (s₁ != s₂)
  | .finite s₁ _ _, .infinity s₂ => .finite (s₁ != s₂) 0 minExponent
  | _, _ => .nan

/-- The remainder of the division whose quotient is cut toward zero; it has the dividend's
sign. -/
def rem : Binary64 → Binary64 → Binary64
  | .finite s₁ m₁ e₁, .finite _ m₂ e₂ =>
    if m₂ = 0 then .nan
    else
      let unit := min e₁ e₂
      ofScaled s₁ ((m₁ * twoPow (e₁ - unit)) % (m₂ * twoPow (e₂ - unit))) unit
  | x@(.finite ..), .infinity _ => x
  | _, _ => .nan

/-- The order of two numbers; nothing when one is no number.  Both zeros are equal. -/
def compare? : Binary64 → Binary64 → Option Ordering
  | .finite s₁ m₁ e₁, .finite s₂ m₂ e₂ =>
    let unit := min e₁ e₂
    some (Ord.compare (inUnits s₁ m₁ e₁ unit) (inUnits s₂ m₂ e₂ unit))
  | .infinity s₁, .infinity s₂ =>
    some (if s₁ = s₂ then .eq else if s₁ then .lt else .gt)
  | .infinity s, .finite .. => some (if s then .lt else .gt)
  | .finite .., .infinity s => some (if s then .gt else .lt)
  | _, _ => none

/-- Equality as numbers: both zeros are equal, and no number equals nothing. -/
def numEq (x y : Binary64) : Bool := x.compare? y == some .eq

/-- Whether the number is a zero of either sign. -/
def isZero : Binary64 → Bool
  | .finite _ m _ => m == 0
  | _ => false

/-- The whole part of the magnitude `m * 2 ^ e`. -/
def wholePart (m : Nat) (e : Int) : Nat := m * twoPow e / twoPow (-e)

/-- Whether the number is finite and whole. -/
def isWhole : Binary64 → Bool
  | .finite _ m e => m % twoPow (-e) == 0
  | _ => false

/-- The number cut toward zero, if it is finite. -/
def trunc? : Binary64 → Option Int
  | .finite s m e => some (if s then -(wholePart m e : Int) else wholePart m e)
  | _ => none

/-- The number rounded to the nearest whole one, away from zero at a tie, if it is finite. -/
def round? : Binary64 → Option Int
  | .finite s m e =>
    let n : Nat := (2 * (m * twoPow e) + twoPow (-e)) / (2 * twoPow (-e))
    some (if s then -(n : Int) else n)
  | _ => none

/-- A signed word of 64 bits from `whole?`, the whole number that stands for `x`; infinities go to
the ends of the range and no number goes to zero. -/
def saturate (x : Binary64) (whole? : Option Int) : Int :=
  match whole?, x with
  | some n, _ => Word.clamp n
  | none, .infinity true => Word.least
  | none, .infinity false => Word.greatest
  | none, _ => 0

/-- The signed word of 64 bits nearest to the number cut toward zero. -/
def truncWord (x : Binary64) : Int := x.saturate x.trunc?

/-- The signed word of 64 bits nearest to the number rounded to a whole one. -/
def roundWord (x : Binary64) : Int := x.saturate x.round?

/-- Whether the number is finite and its magnitude is below `bound`. -/
def magnitudeBelow (x : Binary64) (bound : Nat) : Bool :=
  match x with
  | .finite _ m e => m * twoPow e < bound * twoPow (-e)
  | _ => false

/-- Multiplies `acc` by the powers `base`, `base ^ 2`, `base ^ 4`, … that the binary digits of `n`
select, lowest digit first. -/
def powFrom (acc base : Binary64) (n : Nat) : Binary64 :=
  let acc := if n % 2 = 1 then acc.mul base else acc
  if n / 2 = 0 then acc else powFrom acc (base.mul base) (n / 2)
termination_by n

/-- The power by repeated squaring, rounded at every product; a negative exponent gives the
reciprocal of the power. -/
def pow (base : Binary64) (n : Int) : Binary64 :=
  let p := powFrom (ofInt 1) base n.natAbs
  if n < 0 then (ofInt 1).div p else p

@[simp] theorem neg_neg (x : Binary64) : x.neg.neg = x := by
  cases x <;> simp [neg]

end Binary64

end PanelBus
