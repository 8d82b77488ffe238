import PanelBus.Bytes
/-!
# The receive buffer

A first-in first-out store of received octets.  It takes every octet; only when its capacity is
enforced do the oldest ones go.
-/

namespace PanelBus

/-- Received octets that belong to no frame yet, with the number of them that may stay. -/
structure FrameBuffer where
  /-- The number of octets that stay when the capacity is enforced. -/
  capacity : Nat
  /-- The octets, oldest first. -/
  octets : Bytes := []
deriving DecidableEq, Repr

namespace FrameBuffer

/-- An empty buffer.  Its capacity is at least one. -/
def ofCapacity (capacity : Nat) : FrameBuffer := { capacity := max capacity 1 }

def push (buffer : FrameBuffer) (b : UInt8) : FrameBuffer :=
  { buffer with octets := buffer.octets ++ [b] }

/-- The number of octets above the capacity. -/
def excess (buffer : FrameBuffer) : Nat := buffer.octets.length - buffer.capacity

/-- Drops the `n` oldest octets, or all when there are fewer. -/
def discard (buffer : FrameBuffer) (n : Nat) : FrameBuffer :=
  { buffer with octets := buffer.octets.drop n }

/-- Drops the oldest octets above the capacity. -/
def enforce (buffer : FrameBuffer) : FrameBuffer := buffer.discard buffer.excess

/-- The `n` oldest octets and the buffer without them, when there are that many. -/
def extract? (buffer : FrameBuffer) (n : Nat) : Option (Bytes × FrameBuffer) :=
  if n ≤ buffer.octets.length then some (buffer.octets.take n, buffer.discard n) else none

def clear (buffer : FrameBuffer) : FrameBuffer := { buffer with octets := [] }

theorem length_enforce_le (buffer : FrameBuffer) :
    buffer.enforce.octets.length ≤ buffer.capacity := by
  simp only [enforce, discard, excess, List.length_drop]
  omega

theorem append_of_extract? {buffer rest : FrameBuffer} {frame : Bytes} {n : Nat}
    (h : buffer.extract? n = some (frame, rest)) : frame ++ rest.octets = buffer.octets := by
  unfold extract? at h
  split at h
  · simp only [Option.some.injEq, Prod.mk.injEq] at h
    obtain ⟨rfl, rfl⟩ := h
    simp [discard]
  · cases h

end FrameBuffer

end PanelBus
