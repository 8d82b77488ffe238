import PanelBus.Bytes
/-!
# The cyclic check with generator `x^16 + x^12 + x^5 + 1`

A register holds the coefficients of a polynomial over the two-element field, bit `i` that of
`x^i`.  Octets enter with their most significant bit first and nothing is reflected.
-/

namespace PanelBus.Crc16

/-- The generator without its leading term. -/
def generator : BitVec 16 := 0x1021

/-- Multiplies the register by `x` and reduces it by the generator. -/
def shift (crc : BitVec 16) : BitVec 16 :=
  if crc.msb then (crc <<< 1) ^^^ generator else crc <<< 1

/-- The register after eight shifts. -/
def shiftOctet (crc : BitVec 16) : BitVec 16 :=
  shift (shift (shift (shift (shift (shift (shift (shift crc)))))))

/-- The register after one more octet. -/
def feed (crc : BitVec 16) (b : UInt8) : BitVec 16 :=
  shiftOctet (crc ^^^ (b.toBitVec.setWidth 16 <<< 8))

/-- The register after the data, from the initial register `init`. -/
def compute (init : BitVec 16) (data : Bytes) : BitVec 16 :=
  data.foldl feed init

/-- The two octets of a register, the high one first. -/
def octets (crc : BitVec 16) : Bytes :=
  [UInt8.ofBitVec ((crc >>> 8).setWidth 8), UInt8.ofBitVec (crc.setWidth 8)]

/-- Data may be fed in parts. -/
theorem compute_append (init : BitVec 16) (a b : Bytes) :
    compute init (a ++ b) = compute (compute init a) b := by
  simp [compute, List.foldl_append]

end PanelBus.Crc16
