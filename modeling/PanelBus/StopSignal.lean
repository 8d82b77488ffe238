/-!
# The signal to stop

Whoever holds the signal may raise it, any number of times.  An observer is told of a raising it
has not seen; when nobody holds the signal any more every observer is told at once.
-/

namespace PanelBus

/-- A signal to stop. -/
structure StopSignal where
  /-- How often it has been raised. -/
  raisings : Nat := 0
  /-- The number of those who can still raise it. -/
  holders : Nat := 1
deriving DecidableEq, Repr

namespace StopSignal

/-- How much of a signal an observer has seen: the number of raisings. -/
structure Sight where
  /-- The number of raisings seen. -/
  raisings : Nat := 0
deriving DecidableEq, Repr

/-- Whether the signal has been raised. -/
def raised (signal : StopSignal) : Bool := signal.raisings ≠ 0

/-- Raises the signal. -/
def raise (signal : StopSignal) : StopSignal := { signal with raisings := signal.raisings + 1 }

/-- Gives the signal to one more holder. -/
def share (signal : StopSignal) : StopSignal := { signal with holders := signal.holders + 1 }

/-- Takes it from `n` holders. -/
def release (signal : StopSignal) (n : Nat) : StopSignal :=
  { signal with holders := signal.holders - n }

/-- What an observer sees that looks now. -/
def sight (signal : StopSignal) : Sight := ⟨signal.raisings⟩

/-- Whether an observer that has seen so much is told. -/
def firesFor (signal : StopSignal) (sight : Sight) : Bool :=
  signal.raisings ≠ sight.raisings || signal.holders = 0

end StopSignal

end PanelBus
