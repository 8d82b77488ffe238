import PanelBus.Bytes
/-!
# Octet patterns

A pattern says which octets stand at an offset behind the frame header.  A mask limits the
comparison to some bits; a guard and exceptions narrow the match further.  This module holds the
pattern itself and the comparison of octets; guards need expressions and stand in
`PanelBus.Pattern.Match`.
-/

namespace PanelBus

/-- Which bits of an octet a pattern compares. -/
inductive Mask where
  /-- The same bits of every octet. -/
  | uniform (bits : UInt8)
  /-- Bits by position; positions without bits compare the whole octet. -/
  | perOctet (bits : List (Option UInt8))
deriving DecidableEq, Repr

/-- The bits to compare at a position; nothing stands for the whole octet. -/
def Mask.bitsAt (mask : Mask) (i : Nat) : Option UInt8 :=
  match mask with
  | .uniform bits => some bits
  | .perOctet bits => (bits[i]?).join

/-- A pattern of octets. -/
structure Pattern where
  /-- The offset of the window behind the header. -/
  offset : Nat := 0
  /-- The octets expected in the window. -/
  data : Bytes := []
  /-- The bits to compare; without a mask whole octets are compared. -/
  mask? : Option Mask := none
  /-- Whether the result of the comparison is turned round. -/
  inverted : Bool := false
  /-- The source of a condition that must hold as well. -/
  guard? : Option String := none
  /-- Patterns none of which may match. -/
  except : List Pattern := []

namespace Pattern

/-- Whether two octets agree on the given bits, or altogether when none are given. -/
def agree (bits : Option UInt8) (actual expected : UInt8) : Bool :=
  match bits with
  | some m => actual &&& m == expected &&& m
  | none => actual == expected

/-- The bits that the pattern compares at a position of its window. -/
def bitsAt (pattern : Pattern) (i : Nat) : Option UInt8 :=
  pattern.mask?.bind (·.bitsAt i)

/-- Whether the octets at the pattern's offset, counted from `base`, are those it expects.  A
window that does not lie within the frame does not match; an empty one does. -/
def fits (pattern : Pattern) (frame : Bytes) (base : Nat) : Bool :=
  match frame.slice? (pattern.offset + base) pattern.data.length with
  | none => false
  | some window =>
    (window.zip pattern.data).zipIdx.all fun ((actual, expected), i) =>
      agree (pattern.bitsAt i) actual expected

end Pattern

end PanelBus
