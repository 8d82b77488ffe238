import PanelBus.Registry
/-!
# Events of a gateway

A gateway tells its surroundings when the state of a device changes and when something about a
device goes wrong.
-/

namespace PanelBus

/-- What a device error comes from. -/
inductive DeviceErrorKind where
  | parse
  | expression
  | command
deriving DecidableEq, Repr

/-- The name of the kind. -/
def DeviceErrorKind.name : DeviceErrorKind → String
  | .parse => "parse"
  | .expression => "expression"
  | .command => "command"

/-- Every kind. -/
def DeviceErrorKind.all : List DeviceErrorKind := [.parse, .expression, .command]

/-- Something that happened on a gateway. -/
inductive Event where
  | stateChanged (change : StateChange)
  /-- Something went wrong, with a device if one is named. -/
  | deviceError (deviceId? : Option String) (kind : DeviceErrorKind) (message : String)

namespace Event

/-- The device that the event is about. -/
def deviceId? : Event → Option String
  | .stateChanged change => some change.deviceId
  | .deviceError deviceId? _ _ => deviceId?

/-- Whether the event confirms a command to the device: only a change of its state does. -/
def confirms (deviceId : String) : Event → Bool
  | .stateChanged change => change.deviceId == deviceId
  | .deviceError .. => false

end Event

end PanelBus
