import PanelBus.Bcd
import PanelBus.Bytes
import PanelBus.Json.Value
import PanelBus.Binary64.Decimal
import PanelBus.Text.Blank
/-!
# Numbers in frames

A number field says where in a frame a number stands and how its octets are read.
-/

namespace PanelBus

open Json (Value)

/-- Which octet of a number comes first. -/
inductive ByteOrder where
  /-- The most significant one. -/
  | big
  /-- The least significant one. -/
  | little
deriving DecidableEq, Repr

/-- The octets, most significant first, of octets in this order; the converse as well. -/
def ByteOrder.arrange (order : ByteOrder) (bytes : Bytes) : Bytes :=
  match order with
  | .big => bytes
  | .little => bytes.reverse

/-- How the octets of a number field are read. -/
inductive NumberCoding where
  /-- As a binary number, in two's complement if signed. -/
  | binary
  /-- As two decimal digits an octet. -/
  | bcd
  /-- As a decimal numeral in text. -/
  | ascii
  /-- By the first octet alone: seven bits of whole degrees, and bit 7 for a half more.  If signed,
  bit 6 makes the number negative. -/
  | halfDegree
deriving DecidableEq, Repr

/-- A number in a frame. -/
structure NumberField where
  /-- The offset behind the header. -/
  offset : Nat := 0
  /-- The number of octets; none count as one. -/
  length : Nat := 1
  signed : Bool := false
  order : ByteOrder := .big
  coding : NumberCoding := .binary
  /-- How many decimal places the point moves to the left. -/
  precision : Nat := 0
  /-- Names for whole numbers, by their numerals. -/
  mapping : NameMap String := []
deriving DecidableEq, Repr

namespace NumberField

/-- The binary number of the octets, most significant first; of more than eight octets the last
eight count. -/
def binaryValue (signed : Bool) (bytes : Bytes) : Int :=
  let n : Nat := bytes.toNatBE % Word.count
  let bits : Nat := min (8 * bytes.length) 64
  if signed ∧ Word.range (bits - 1) ≤ n then (n : Int) - Word.range bits else n

/-- Whether the character is left out around a numeral in a frame. -/
def isFiller (c : Char) : Bool := Text.isBlank c || c == '\x00'

/-- The numeral that the octets hold as text. -/
def asciiValue? (bytes : Bytes) : Option Binary64 :=
  match String.fromUTF8? (ByteArray.mk bytes.toArray) with
  | some text => Binary64.ofText? (Text.trimBy isFiller text.toList)
  | none => none

/-- Half degrees in one octet. -/
def halfDegreeValue (signed : Bool) (b : UInt8) : Binary64 :=
  let halves := 2 * (b &&& 0x7F).toNat + (if b &&& 0x80 = 0 then 0 else 1)
  let x := Binary64.ofRatio false halves 2
  if signed && b &&& 0x40 ≠ 0 then x.neg else x

/-- The number that the octets stand for, most significant first. -/
def value? (field : NumberField) (bytes : Bytes) : Option Binary64 :=
  match field.coding with
  | .binary => some (.ofInt (binaryValue field.signed bytes))
  | .bcd => some (.ofInt (Bcd.ofOctets bytes))
  | .ascii => asciiValue? bytes
  | .halfDegree => bytes.head?.map (halfDegreeValue field.signed)

/-- The number of decimal places as the power takes it: a signed word of 32 bits. -/
def places (precision : Nat) : Int :=
  if precision < Word.range 31 then precision else (precision : Int) - Word.shortCount

/-- The name of a whole number, if it has one. -/
def nameOf? (field : NumberField) (x : Binary64) : Option String :=
  if x.isWhole then field.mapping.get? (toString x.truncWord) else none

/-- A number as a value: whole numbers of a magnitude below `9 * 10 ^ 15` as whole ones, other
finite ones in the binary format. -/
def toValue? (x : Binary64) : Option Value :=
  if x.isWhole && x.magnitudeBelow 9000000000000000 then some (.int x.truncWord)
  else if x.isFinite then some (.float x)
  else none

/-- The value of the field in a frame whose header is `base` octets long: a name or a number.
There is none when the octets do not all lie in the frame or hold no number. -/
def decode? (field : NumberField) (frame : Bytes) (base : Nat) : Option Value := do
  let raw ← frame.slice? (base + field.offset) (max field.length 1)
  let x ← field.value? (field.order.arrange raw)
  match field.nameOf? x with
  | some name => return .str name
  | none =>
    if 0 < field.precision then
      toValue? (x.div ((Binary64.ofInt 10).pow (places field.precision)))
    else toValue? x

end NumberField

end PanelBus
