/-!
# Binary-coded decimals

An octet holds two decimal digits, the tens in its upper half.
-/

namespace PanelBus.Bcd

/-- The number that an octet holds; halves above nine keep their value as a digit. -/
def toNat (b : UInt8) : Nat := b.toNat / 16 * 10 + b.toNat % 16

/-- The octet that holds the last two decimal digits of a number. -/
def ofNat (n : Nat) : UInt8 := UInt8.ofNat (n / 10 % 10 * 16 + n % 10)

/-- The octets of the last `2 * len` decimal digits of a number, most significant first. -/
def octets (len n : Nat) : List UInt8 :=
  (List.range len).reverse.map fun i => ofNat (n / Nat.pow 100 i % 100)

/-- The number whose base-100 digits the octets hold, most significant first. -/
def ofOctets (bytes : List UInt8) : Nat :=
  bytes.foldl (fun acc b => acc * 100 + toNat b) 0

theorem toNat_ofNat (n : Nat) : toNat (ofNat n) = n % 100 := by
  unfold toNat ofNat
  have hdigits : n / 10 % 10 * 16 + n % 10 < 256 := by omega
  rw [UInt8.toNat_ofNat', Nat.mod_eq_of_lt hdigits]
  omega

@[simp] theorem length_octets (len n : Nat) : (octets len n).length = len := by
  simp [octets]

end PanelBus.Bcd
