import PanelBus.Bytes
/-!
# The way out to the transport

Frames go to the transport through a channel, with or without a limit on the frames that wait in it.
-/

namespace PanelBus

/-- A channel to the transport. -/
structure Outlet where
  /-- The greatest number of waiting frames, if there is one. -/
  capacity? : Option Nat
  /-- The frames that wait, oldest first. -/
  waiting : List Bytes := []
  /-- Whether somebody still takes frames out. -/
  isOpen : Bool := true
deriving DecidableEq, Repr

/-- Why a frame was not taken. -/
inductive Outlet.WriteError where
  /-- As many frames wait as may. -/
  | full
  /-- Nobody takes frames out any more. -/
  | broken
deriving DecidableEq, Repr

/-- The text of a writing error. -/
def Outlet.WriteError.message : Outlet.WriteError → String
  | .full => "transport queue full"
  | .broken => "transport receiver dropped"

namespace Outlet

/-- Whether as many frames wait as may. -/
def isFull (outlet : Outlet) : Bool :=
  match outlet.capacity? with
  | some capacity => decide (capacity ≤ outlet.waiting.length)
  | none => false

/-- Puts a frame in. -/
def write (outlet : Outlet) (frame : Bytes) : Except WriteError Outlet :=
  if !outlet.isOpen then .error .broken
  else if outlet.isFull then .error .full
  else .ok { outlet with waiting := outlet.waiting ++ [frame] }

/-- Takes the oldest frame out. -/
def receive (outlet : Outlet) : Option Bytes × Outlet :=
  match outlet.waiting with
  | [] => (none, outlet)
  | frame :: rest => (some frame, { outlet with waiting := rest })

/-- Gives up taking frames out; those that wait are lost. -/
def close (outlet : Outlet) : Outlet := { outlet with waiting := [], isOpen := false }

end Outlet

end PanelBus
