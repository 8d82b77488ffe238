/-!
# Words

The whole numbers that fit 64 bits, with sign and without, and the powers of two and ten by which
numbers are scaled.
-/

namespace PanelBus

namespace Word

/-- The least signed word of 64 bits. -/
def least : Int := -0x8000000000000000

/-- The greatest signed word of 64 bits. -/
def greatest : Int := 0x7FFFFFFFFFFFFFFF

/-- The number of non-negative signed words of 64 bits. -/
def half : Nat := 0x8000000000000000

/-- The number of words of 64 bits. -/
def count : Nat := 0x10000000000000000

/-- The number of words of 32 bits. -/
def shortCount : Nat := 0x100000000

/-- Whether a whole number fits a signed word of 64 bits. -/
def holds (n : Int) : Bool := least ≤ n && n ≤ greatest

/-- The signed word nearest to a whole number. -/
def clamp (n : Int) : Int := if n < least then least else if greatest < n then greatest else n

/-- The number of whole numbers that fit `bits` bits. -/
def range (bits : Nat) : Nat := Nat.pow 2 bits

end Word

/-- Two to the power of `e`, and one for negative `e`. -/
def twoPow (e : Int) : Nat := Nat.pow 2 e.toNat

/-- Ten to the power of `k`, and one for negative `k`. -/
def tenPow (k : Int) : Nat := Nat.pow 10 k.toNat

end PanelBus
