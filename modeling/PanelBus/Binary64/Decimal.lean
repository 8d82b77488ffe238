import PanelBus.Binary64.Basic
import PanelBus.Text.Numeral
/-!
# Binary numbers in decimal

Reading a decimal numeral gives the nearest number of the format.  Writing uses the fewest decimal
digits that read back as the same number: for one, two, … digits the two neighbours of the number
on that decimal grid are tried, and of two that read back the nearer one is taken.

Two layouts are written.  `text` always has a fraction or an exponent, so that it differs from the
text of a whole number.  `plainText` never has an exponent and shows no fraction for whole numbers.
-/

namespace PanelBus.Binary64

/-! ## Reading -/

/-- The number nearest to `± digits * 10 ^ exp`.  The two guards keep far exponents from building
huge powers: past them the result is an infinity or a zero whatever the digits. -/
def ofDecimal (negative : Bool) (digits : Nat) (exp : Int) : Binary64 :=
  if digits = 0 then .finite negative 0 minExponent
  else if 310 < exp then .infinity negative
  else if (digits.log2 : Int) + 1 + 3 * exp < -1080 then .finite negative 0 minExponent
  else ofRatio negative (digits * tenPow exp) (tenPow (-exp))

/-- The digits and the power of ten of an unsigned decimal numeral: digits with at most one point
among or around them, then an optional exponent. -/
def readScaled? (s : List Char) : Option (Nat × Int) :=
  let whole := s.takeWhile Text.isDigit
  let rest := s.dropWhile Text.isDigit
  let (fraction, rest) :=
    match rest with
    | '.' :: r => (r.takeWhile Text.isDigit, r.dropWhile Text.isDigit)
    | r => ([], r)
  if whole.isEmpty && fraction.isEmpty then none
  else
    let exp? :=
      match rest with
      | [] => some 0
      | mark :: r => if mark == 'e' || mark == 'E' then Text.readInt? r else none
    exp?.map fun exp => (Text.ofDecimalDigits (whole ++ fraction), exp - fraction.length)

/-- Reads an optionally signed decimal numeral, or a name of an infinity or of no number in either
case of letters. -/
def ofText? (s : List Char) : Option Binary64 :=
  let (negative, body) :=
    match s with
    | '-' :: r => (true, r)
    | '+' :: r => (false, r)
    | r => (false, r)
  let name := String.ofList (body.map Char.toLower)
  if name == "inf" || name == "infinity" then some (.infinity negative)
  else if name == "nan" then some .nan
  else (readScaled? body).map fun (digits, exp) => ofDecimal negative digits exp

/-! ## Shortest digits -/

/-- Which way a tie between two equally near decimals goes. -/
inductive Tie where
  /-- To the decimal with an even last digit. -/
  | even
  /-- To the greater decimal. -/
  | up
deriving DecidableEq, Repr

/-- Whether `a * 10 ^ k ≤ b * 2 ^ q`. -/
def decimalLe (a : Nat) (k : Int) (b : Nat) (q : Int) : Bool :=
  a * tenPow k * twoPow (-q) ≤ b * twoPow q * tenPow (-k)

/-- Whether `b * 2 ^ q ≤ a * 10 ^ k`. -/
def binaryLe (b : Nat) (q : Int) (a : Nat) (k : Int) : Bool :=
  b * twoPow q * tenPow (-k) ≤ a * tenPow k * twoPow (-q)

/-- Whether the decimal `a * 10 ^ k` reads back as `m * 2 ^ e`.  The bounds are half-way to the
neighbours, in quarters of the last place, and belong to the interval when `m` is even. -/
def readsBack (m : Nat) (e : Int) (a : Nat) (k : Int) : Bool :=
  let lower := if m = twoPow 52 ∧ minExponent < e then 4 * m - 1 else 4 * m - 2
  let upper := 4 * m + 2
  if m % 2 = 0 then binaryLe lower (e - 2) a k && decimalLe a k upper (e - 2)
  else !decimalLe a k lower (e - 2) && !binaryLe upper (e - 2) a k

/-- The greatest `k` with `10 ^ k ≤ m * 2 ^ e`, for positive `m`. -/
def floorLog10 (m : Nat) (e : Int) : Int :=
  let estimate := (((m.log2 : Int) + e) * 30103).fdiv 100000
  if decimalLe 1 (estimate + 1) m e then estimate + 1
  else if decimalLe 1 estimate m e then estimate
  else estimate - 1

/-- The decimal with `count` digits that is nearest to `m * 2 ^ e` among those that read back, as
digits and power of ten. -/
def nearestOn (tie : Tie) (m : Nat) (e : Int) (count : Nat) : Option (Nat × Int) :=
  let k := floorLog10 m e - count + 1
  let num := m * twoPow e * tenPow (-k)
  let den := twoPow (-e) * tenPow k
  let below := num / den
  let pick :=
    match readsBack m e below k, readsBack m e (below + 1) k with
    | true, true =>
      let twice := 2 * (num % den)
      if twice < den then some below
      else if den < twice then some (below + 1)
      else match tie with
        | .even => some (below + below % 2)
        | .up => some (below + 1)
    | true, false => some below
    | false, true => some (below + 1)
    | false, false => none
  pick.map fun digits => (digits, k)

/-- The fewest digits that read back as `m * 2 ^ e`, with their power of ten, for positive `m`.
Seventeen digits always read back. -/
def shortest (tie : Tie) (m : Nat) (e : Int) : Nat × Int :=
  ((List.range 17).findSome? fun i => nearestOn tie m e (i + 1)).getD (0, 0)

/-! ## Layouts -/

/-- The significant digits of `n` without the zeros at their end, and how many those were. -/
def significant (n : Nat) : List Char × Nat :=
  let all := Nat.toDigits 10 n
  let kept := (all.reverse.dropWhile (· == '0')).reverse
  (kept, all.length - kept.length)

/-- The digits with the point after the first `point` of them, zeros filled in on either side;
`whole` is added after a number without a fraction. -/
def positional (digits : List Char) (point : Int) (whole : String) : String :=
  if point ≤ 0 then
    "0." ++ String.ofList (List.replicate (-point).toNat '0' ++ digits)
  else if digits.length ≤ point.toNat then
    String.ofList (digits ++ List.replicate (point.toNat - digits.length) '0') ++ whole
  else
    String.ofList (digits.take point.toNat) ++ "." ++ String.ofList (digits.drop point.toNat)

/-- The digits with a point after the first of them and a power of ten. -/
def scientific (digits : List Char) (exp : Int) : String :=
  let fraction :=
    match digits.tail with
    | [] => ""
    | rest => "." ++ String.ofList rest
  String.ofList (digits.take 1) ++ fraction ++ "e" ++ (if exp < 0 then "-" else "+") ++
    toString exp.natAbs

/-- The text of a number in data: positional from `0.00001` up to sixteen digits before the point,
always with a fraction or an exponent; a tie goes to the even digit. -/
def text : Binary64 → String
  | .nan => "null"
  | .infinity _ => "null"
  | .finite s m e =>
    let body :=
      if m = 0 then "0.0"
      else
        let (n, k) := shortest .even m e
        let (digits, zeros) := significant n
        let exp := k + zeros + digits.length - 1
        if -5 ≤ exp ∧ exp ≤ 15 then positional digits (exp + 1) ".0" else scientific digits exp
    (if s then "-" else "") ++ body

/-- The text of a number in messages: always positional, without a fraction for whole numbers; a
tie goes up. -/
def plainText : Binary64 → String
  | .nan => "NaN"
  | .infinity s => if s then "-inf" else "inf"
  | .finite s m e =>
    let body :=
      if m = 0 then "0"
      else
        let (n, k) := shortest .up m e
        let (digits, zeros) := significant n
        positional digits (k + zeros + digits.length) ""
    (if s then "-" else "") ++ body

end PanelBus.Binary64
