import PanelBus.Binary64.Decimal
/-!
# Failures of expressions

Each failure is named for its cause; `message` gives the text shown to people.
-/

namespace PanelBus.Expr

/-- The greatest size of a source, in octets of its UTF-8 form. -/
def maxSourceSize : Nat := 2048

/-- The greatest depth of brackets, number of conditionals and length of a run of operators before
one operand. -/
def maxNesting : Nat := 32

/-- Why a source is refused before it is read. -/
inductive Excess where
  /-- The source has too many octets. -/
  | size (octets : Nat)
  /-- Brackets, conditionals or leading operators nest too deep. -/
  | nesting
deriving DecidableEq, Repr

/-- Why an operation does not apply to the types of its operands. -/
inductive TypeFault where
  | noField (field typeName : String)
  /-- A number is expected by `place`. -/
  | notNumber (place typeName : String)
  /-- A whole number of 64 bits is expected by `place`. -/
  | notInteger (place : String) (number : Binary64)
  /-- The value cannot be indexed by that other value. -/
  | notIndexable (target position : String)
  /-- Only lists, texts and maps have a length. -/
  | noLength (typeName : String)
  | arity (function : String) (given : Nat)
  /-- The text is no numeral that the function reads. -/
  | noNumeral (function text : String)
  | noNumbers (function : String)
  /-- The membership test takes a map and a text. -/
  | membership
deriving DecidableEq, Repr

/-- Why an arithmetic operation has no result. -/
inductive ArithmeticFault where
  /-- The result of a change of sign leaves the range of whole numbers. -/
  | overflow
  /-- The result of the operator leaves the range of whole numbers. -/
  | overflowIn (symbol : String)
  | divisionByZero
  /-- One side of a comparison is no number. -/
  | unordered
  /-- The distance of a shift is not below 64. -/
  | shiftRange (distance : Int)
  /-- The result is an infinity or no number. -/
  | notFinite (number : Binary64)
  /-- The number does not lie between 0 and 255. -/
  | notOctet (function : String) (number : Int)
  /-- The number does not lie between 0 and `2 ^ 32`. -/
  | negative (function : String) (number : Int)
  /-- The number has no whole part of 64 bits. -/
  | outOfRange (number : Binary64)
deriving DecidableEq, Repr

/-- Why an expression was not read or has no value. -/
inductive Error where
  /-- Reading stopped at an octet offset, where `found` stands. -/
  | parse (position : Nat) (found : String)
  | tooComplex (excess : Excess)
  | unknownVariable (name : String)
  | unknownFunction (name : String)
  | type (fault : TypeFault)
  | arithmetic (fault : ArithmeticFault)
  | stepLimit (limit : Nat)
  /-- A look at the clock found that so many nanoseconds were used up. -/
  | timeout {limit : Nat}
  | host (name message : String)
  /-- The least whole number divided by `-1`, or a host function called under a deadline that the
  clock cannot tell.  The evaluation does not end with a failure of the expression; it breaks off,
  and everything that waits for it breaks off too. -/
  | breakdown
deriving DecidableEq, Repr

/-- The text of an excess. -/
def Excess.message : Excess → String
  | .size octets =>
    "source is " ++ toString octets ++ " bytes, limit is " ++ toString maxSourceSize
  | .nesting => "nesting deeper than " ++ toString maxNesting

/-- The text of a type fault. -/
def TypeFault.message : TypeFault → String
  | .noField field typeName => "cannot read field '" ++ field ++ "' of " ++ typeName
  | .notNumber place typeName => place ++ " expects a number, got " ++ typeName
  | .notInteger place number => place ++ " expects an integer, got " ++ number.plainText
  | .notIndexable target position => "cannot index " ++ target ++ " with " ++ position
  | .noLength typeName => "len expects list, string or map, got " ++ typeName
  | .arity function given => function ++ " expects 1 argument, got " ++ toString given
  | .noNumeral function text => function ++ ": cannot parse '" ++ text ++ "'"
  | .noNumbers function => function ++ " expects at least one number"
  | .membership => "has expects (map, string)"

/-- The text of an arithmetic fault. -/
def ArithmeticFault.message : ArithmeticFault → String
  | .overflow => "integer overflow"
  | .overflowIn symbol => "integer overflow in '" ++ symbol ++ "'"
  | .divisionByZero => "division by zero"
  | .unordered => "cannot compare NaN"
  | .shiftRange distance => "shift amount " ++ toString distance ++ " out of range"
  | .notFinite number => "non-finite result " ++ number.plainText
  | .notOctet function number => function ++ ": " ++ toString number ++ " is not a byte"
  | .negative function number => function ++ ": " ++ toString number ++ " is negative"
  | .outOfRange number => "int: " ++ number.plainText ++ " out of range"

/-- A number of nanoseconds in a unit of ten to the power of `digits` of them.  Zeros at the end of
its fraction are left out. -/
def spanTextIn (nanos digits : Nat) (unit : String) : String :=
  let scale := Nat.pow 10 digits
  let padded := (Nat.toDigits 10 (scale + nanos % scale)).tail
  let fraction := (padded.reverse.dropWhile (· == '0')).reverse
  toString (nanos / scale) ++ (if fraction.isEmpty then "" else "." ++ String.ofList fraction) ++
    unit

/-- A number of nanoseconds in the greatest unit that it reaches. -/
def spanText (nanos : Nat) : String :=
  if 1000000000 ≤ nanos then spanTextIn nanos 9 "s"
  else if 1000000 ≤ nanos then spanTextIn nanos 6 "ms"
  else if 1000 ≤ nanos then spanTextIn nanos 3 "µs"
  else spanTextIn nanos 0 "ns"

/-- The text of a failure. -/
def Error.message : Error → String
  | .parse position found =>
    "Parse error at " ++ toString position ++ ": unexpected input '" ++ found ++ "'"
  | .tooComplex excess => "Expression too complex: " ++ excess.message
  | .unknownVariable name => "Unknown variable: " ++ name
  | .unknownFunction name => "Unknown function: " ++ name
  | .type fault => "Type error: " ++ fault.message
  | .arithmetic fault => "Arithmetic error: " ++ fault.message
  | .stepLimit limit => "Step limit of " ++ toString limit ++ " exceeded"
  | @timeout limit => "Execution exceeded " ++ spanText limit
  | .host name message => "Host function '" ++ name ++ "' failed: " ++ message
  | .breakdown => "evaluation broke off"

end PanelBus.Expr
