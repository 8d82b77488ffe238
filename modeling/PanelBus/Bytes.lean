/-!
# Bytes on the line

Frames, payloads and patterns are lists of octets.  This module names that type and the cuts the
other modules make in it.
-/

namespace PanelBus

/-- A run of octets, first on the line first. -/
abbrev Bytes := List UInt8

namespace Bytes

/-- The `len` octets from `start` on, or nothing when they do not all exist. -/
def slice? (bytes : Bytes) (start len : Nat) : Option Bytes :=
  if start + len ≤ bytes.length then some ((bytes.drop start).take len) else none

/-- The octets with those from `start` on replaced by `patch`, or nothing when `patch` does not
fit. -/
def overwrite? (bytes : Bytes) (start : Nat) (patch : Bytes) : Option Bytes :=
  if start + patch.length ≤ bytes.length then
    some (bytes.take start ++ patch ++ bytes.drop (start + patch.length))
  else
    none

/-- The number whose base-256 digits are the octets, most significant first. -/
def toNatBE (bytes : Bytes) : Nat :=
  bytes.foldl (fun acc b => acc * 256 + b.toNat) 0

/-- The `len` low base-256 digits of `n`, most significant first. -/
def ofNatBE (len n : Nat) : Bytes :=
  (List.range len).reverse.map fun i => UInt8.ofNat (n / Nat.pow 256 i)

theorem length_of_slice? {bytes part : Bytes} {start len : Nat}
    (h : bytes.slice? start len = some part) : part.length = len := by
  unfold slice? at h
  split at h
  · next hfit =>
    cases h
    simp only [List.length_take, List.length_drop]
    omega
  · cases h

@[simp] theorem length_ofNatBE (len n : Nat) : (ofNatBE len n).length = len := by
  simp [ofNatBE]

end Bytes

end PanelBus
