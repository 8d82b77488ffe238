import PanelBus.Line.Basic
/-!
# Sending commands

A command is a frame for a device.  It is sent, and sent again, until the device confirms it or its
retry policy is used up.
-/

namespace PanelBus

/-- Which of the two lanes a command waits in. -/
inductive Priority where
  /-- The lane that is emptied first. -/
  | high
  /-- The lane for commands that can wait. -/
  | low
deriving DecidableEq, Repr

/-- A frame to be sent to a device. -/
structure SendRequest where
  /-- The device whose change confirms the command. -/
  deviceId : String
  frame : Bytes
  retry : RetryPolicy
  priority : Priority := .low
  /-- Whether the sender keeps a hold on the queue until it has the result. -/
  attached : Bool := false
deriving DecidableEq, Repr

/-- Why a command failed. -/
inductive CommandError where
  /-- The device did not confirm it in so many sendings. -/
  | unconfirmed (sendings : Nat)
  | stopped
  | unknownDevice (id : String)
  /-- No frame could be made. -/
  | notBuilt (id command : String)
  /-- Nobody takes commands any more. -/
  | closed
deriving DecidableEq, Repr

/-- The text of a command error. -/
def CommandError.message : CommandError → String
  | .unconfirmed sendings =>
    "no state change from device after " ++ toString sendings ++ " attempts"
  | .stopped => "command manager shut down"
  | .unknownDevice id => "unknown device: " ++ id
  | .notBuilt id command => "could not build command '" ++ command ++ "' for device " ++ id
  | .closed => "command channel closed"

/-- The number of sendings up to the confirmation, or why there was none. -/
abbrev CommandResult := Except CommandError Nat

end PanelBus
