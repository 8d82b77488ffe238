/-!
# Numerals

Reading whole numbers written in ASCII digits.  No separators and no blanks are allowed, and at
least one digit is required.
-/

namespace PanelBus.Text

/-- The value of a digit in a base of at most sixteen. -/
def digitValue? (base : Nat) (c : Char) : Option Nat :=
  let value? :=
    if '0' ≤ c ∧ c ≤ '9' then some (c.toNat - '0'.toNat)
    else if 'a' ≤ c ∧ c ≤ 'f' then some (c.toNat - 'a'.toNat + 10)
    else if 'A' ≤ c ∧ c ≤ 'F' then some (c.toNat - 'A'.toNat + 10)
    else none
  value?.filter (· < base)

/-- Whether the character is a decimal digit. -/
def isDigit (c : Char) : Bool := '0' ≤ c && c ≤ '9'

/-- Whether the character is a hexadecimal digit, of either case. -/
def isHexDigit (c : Char) : Bool := (digitValue? 16 c).isSome

/-- The number with these digits, most significant first. -/
def ofDigits? (base : Nat) (s : List Char) : Option Nat :=
  s.foldlM (fun acc c => (digitValue? base c).map (acc * base + ·)) 0

/-- The number with these decimal digits; other characters count as zero. -/
def ofDecimalDigits (s : List Char) : Nat :=
  s.foldl (fun acc c => acc * 10 + (digitValue? 10 c).getD 0) 0

/-- A natural number with an optional plus sign before its digits. -/
def readNat? (base : Nat) (s : List Char) : Option Nat :=
  match s with
  | [] => none
  | '+' :: digits => if digits.isEmpty then none else ofDigits? base digits
  | digits => ofDigits? base digits

/-- A whole number with an optional sign before its decimal digits. -/
def readInt? (s : List Char) : Option Int :=
  match s with
  | '-' :: digits => if digits.isEmpty then none else (ofDigits? 10 digits).map fun n => -(n : Int)
  | digits => (readNat? 10 digits).map Int.ofNat

end PanelBus.Text
