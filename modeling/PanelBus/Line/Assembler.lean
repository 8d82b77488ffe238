import PanelBus.Line.Basic
import PanelBus.Line.FrameBuffer
/-!
# Frames from received octets

An assembler cuts frames out of a stream of octets.  After every octet it looks once for a frame at
the front of its buffer.  Octets with which no frame can start are skipped, and a frame that is not
valid costs its first octet, after which the rest is looked at again.
-/

namespace PanelBus

/-- What an assembler has done so far. -/
structure AssemblerStats where
  frames : Nat := 0
  /-- The frames whose checksum or footer was wrong. -/
  checksumFailures : Nat := 0
  /-- The octets skipped in search of a frame. -/
  resyncDrops : Nat := 0
  /-- The octets dropped because the buffer was full. -/
  overflowDrops : Nat := 0
  /-- How often silence emptied the buffer. -/
  timeouts : Nat := 0
deriving DecidableEq, Repr

/-- What the front of a buffer that starts with a whole header holds. -/
inductive Verdict where
  | frame (length : Nat)
  | incomplete
  | invalid
deriving DecidableEq, Repr

/-- The result of looking for a frame. -/
structure Search where
  frame? : Option Bytes := none
  rest : Bytes := []
  drops : Nat := 0
  /-- How many of them started with a whole header. -/
  failures : Nat := 0
deriving DecidableEq, Repr

/-- A search that skips one octet before. -/
def Search.afterDrop (search : Search) : Search := { search with drops := search.drops + 1 }

/-- A search that gives up a front with a whole header before. -/
def Search.afterFailure (search : Search) : Search :=
  { search with drops := search.drops + 1, failures := search.failures + 1 }

namespace RxFormat

/-- Whether the octets start like the header, as far as both go. -/
def headerAgrees (rx : RxFormat) (octets : Bytes) : Bool :=
  octets.take rx.header.length == rx.header.take octets.length

/-- Whether the first `n` octets are a frame behind the header: they end with the footer and carry
the right checksum. -/
def accepts (rx : RxFormat) (octets : Bytes) (n : Nat) : Bool :=
  n ≤ octets.length && rx.footer.isSuffixOf (octets.take n) &&
    rx.checksum.verifyFrame (octets.take n) rx.header.length rx.footer.length

/-- The least length from `least` to `greatest` with which the first octets are a frame. -/
def leastAccepted? (rx : RxFormat) (octets : Bytes) (least greatest : Nat) : Option Nat :=
  (List.range' least (greatest + 1 - least)).find? fun n => rx.accepts octets n

/-- What octets that start with the header hold. -/
def verdict (rx : RxFormat) (octets : Bytes) : Verdict :=
  match rx.framing with
  | .fixed length =>
    if octets.length < length then .incomplete
    else if rx.accepts octets length then .frame length
    else .invalid
  | .footer =>
    if octets.length ≤ rx.overhead || !rx.footer.isSuffixOf octets then .incomplete
    else if rx.accepts octets octets.length then .frame octets.length
    else .invalid
  | .sweep least greatest =>
    if octets.length < least then .incomplete
    else
      match rx.leastAccepted? octets least (min greatest octets.length) with
      | some n => .frame n
      | none => if octets.length < greatest then .incomplete else .invalid

/-- Looks for a frame at the front, skipping octets until there is one or may be one. -/
def search (rx : RxFormat) : Bytes → Search
  | [] => {}
  | b :: rest =>
    let octets := b :: rest
    if !rx.headerAgrees octets then (rx.search rest).afterDrop
    else if octets.length < rx.header.length then { rest := octets }
    else
      match rx.verdict octets with
      | .frame n => { frame? := some (octets.take n), rest := octets.drop n }
      | .incomplete => { rest := octets }
      | .invalid => (rx.search rest).afterFailure

end RxFormat

/-- A stream of octets being cut into frames. -/
structure Assembler where
  rx : RxFormat
  /-- The octets that belong to no frame yet. -/
  buffer : FrameBuffer
  /-- When octets were last received, in milliseconds. -/
  lastRx? : Option Nat := none
  stats : AssemblerStats := {}
deriving DecidableEq, Repr

namespace Assembler

/-- An assembler that has received nothing. -/
def ofFormat (rx : RxFormat) : Assembler := { rx, buffer := .ofCapacity rx.capacity }

/-- The octets that belong to no frame yet. -/
def pending (assembler : Assembler) : Bytes := assembler.buffer.octets

/-- Looks for a frame in the buffer. -/
def complete (assembler : Assembler) : Option Bytes × Assembler :=
  let search := assembler.rx.search assembler.buffer.octets
  (search.frame?,
    { assembler with
      buffer := { assembler.buffer with octets := search.rest }
      stats :=
        { assembler.stats with
          frames := assembler.stats.frames + search.frame?.toList.length
          checksumFailures := assembler.stats.checksumFailures + search.failures
          resyncDrops := assembler.stats.resyncDrops + search.drops } })

/-- Drops the oldest octets above the capacity. -/
def enforceCapacity (assembler : Assembler) : Assembler :=
  { assembler with
    buffer := assembler.buffer.enforce
    stats :=
      { assembler.stats with
        overflowDrops := assembler.stats.overflowDrops + assembler.buffer.excess } }

def feed (assembler : Assembler) (b : UInt8) : Option Bytes × Assembler :=
  let (frame?, assembler) := complete { assembler with buffer := assembler.buffer.push b }
  (frame?, assembler.enforceCapacity)

/-- Receives octets without looking at the time. -/
def feedAll (assembler : Assembler) : Bytes → List Bytes × Assembler
  | [] => ([], assembler)
  | b :: rest =>
    let (frame?, assembler) := assembler.feed b
    let (frames, assembler) := assembler.feedAll rest
    (frame?.toList ++ frames, assembler)

/-- Whether octets received at `now` come after a silence that is too long. -/
def expired (assembler : Assembler) (now : Nat) : Bool :=
  match assembler.rx.timeout?, assembler.lastRx? with
  | some timeout, some last => decide (timeout < now - last)
  | _, _ => false

/-- Empties the buffer if the silence before `now` was too long, and notes the time. -/
def touch (assembler : Assembler) (now : Nat) : Assembler :=
  if assembler.expired now && !assembler.buffer.octets.isEmpty then
    { assembler with
      buffer := assembler.buffer.clear
      lastRx? := some now
      stats := { assembler.stats with timeouts := assembler.stats.timeouts + 1 } }
  else { assembler with lastRx? := some now }

/-- Receives octets at a time and gives the frames that they complete. -/
def push (assembler : Assembler) (chunk : Bytes) (now : Nat) : List Bytes × Assembler :=
  if chunk.isEmpty then ([], assembler) else (assembler.touch now).feedAll chunk

/-- Forgets the octets and the time, but not what has been done. -/
def reset (assembler : Assembler) : Assembler :=
  { assembler with buffer := assembler.buffer.clear, lastRx? := none }

end Assembler

end PanelBus
