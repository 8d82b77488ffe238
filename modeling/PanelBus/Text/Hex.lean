import PanelBus.Bytes
import PanelBus.Text.Blank
import PanelBus.Text.Numeral
/-!
# Octets as hexadecimal text

Two written forms: the compact one with lower-case digits, and the spaced one with upper-case
digits for people.  Reading accepts both cases and blanks anywhere, and reports the first
character that is no digit.
-/

namespace PanelBus.Hex

/-- The digit for a value below sixteen, letters in lower case. -/
def digit (n : Nat) : Char :=
  if n < 10 then Char.ofNat ('0'.toNat + n) else Char.ofNat ('a'.toNat + (n - 10))

/-- The two digits of an octet. -/
def pair (b : UInt8) : List Char := [digit (b.toNat / 16), digit (b.toNat % 16)]

/-- Compact lower-case digits, two an octet. -/
def encode (bytes : Bytes) : String :=
  String.ofList (bytes.flatMap pair)

/-- Upper-case digit pairs with a space between octets. -/
def spaced (bytes : Bytes) : String :=
  " ".intercalate (bytes.map fun b => String.ofList ((pair b).map Char.toUpper))

/-- Why a text holds no octets. -/
inductive ReadError where
  /-- The text without its blanks has an odd number of UTF-8 octets. -/
  | oddLength
  /-- The UTF-8 octet `octet` at offset `index` of the text without its blanks is no digit. -/
  | invalidDigit (octet : UInt8) (index : Nat)
deriving DecidableEq, Repr

/-- An octet as the character of that code point between apostrophes; control characters, the
apostrophe and the backslash are escaped. -/
def quotedOctet (b : UInt8) : String :=
  let n := b.toNat
  let body :=
    if n == 0 then "\\0"
    else if n == 9 then "\\t"
    else if n == 10 then "\\n"
    else if n == 13 then "\\r"
    else if n == 0x27 then "\\'"
    else if n == 0x5C then "\\\\"
    else if n < 0x20 || (0x7F ≤ n && n ≤ 0xA0) || n == 0xAD then
      "\\u\x7b" ++ String.ofList (Nat.toDigits 16 n) ++ "\x7d"
    else String.singleton (Char.ofNat n)
  "'" ++ body ++ "'"

/-- The text of a reading error. -/
def ReadError.message : ReadError → String
  | .oddLength => "Odd number of digits"
  | .invalidDigit octet index =>
    "Invalid character " ++ quotedOctet octet ++ " at position " ++ toString index

/-- The value of an octet that is an ASCII hexadecimal digit. -/
def digitValue? (b : UInt8) : Option Nat :=
  Text.digitValue? 16 (Char.ofNat b.toNat)

/-- Reads digit pairs from offset `index` on. -/
def decodePairs (index : Nat) : Bytes → Except ReadError Bytes
  | hi :: lo :: rest =>
    match digitValue? hi, digitValue? lo with
    | some h, some l => return UInt8.ofNat (16 * h + l) :: (← decodePairs (index + 2) rest)
    | none, _ => .error (.invalidDigit hi index)
    | some _, none => .error (.invalidDigit lo (index + 1))
  | [_] => .error .oddLength
  | [] => .ok []

/-- Reads octets from digits of either case.  Blanks are skipped wherever they stand. -/
def decode (text : String) : Except ReadError Bytes :=
  let packed := String.ofList (text.toList.filter fun c => !Text.isBlank c)
  let octets := packed.toUTF8.toList
  if octets.length % 2 == 1 then .error .oddLength else decodePairs 0 octets

end PanelBus.Hex
