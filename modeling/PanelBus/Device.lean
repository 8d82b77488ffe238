import PanelBus.Entity.Check
import PanelBus.Pattern.Match
/-!
# Devices

A device is an entity with its current state.  A frame that matches gives a set of fields: the
computed ones first, then those of the kind that are not computed.  Merging keeps only what really
changes.
-/

namespace PanelBus

open Json (Value Fields)

/-- What all devices of a line share. -/
structure DeviceEnv where
  /-- The length of the frame header, from which offsets count. -/
  base : Nat := 0
  hosts : NameMap Expr.HostFunction := []

/-- A device. -/
structure Device where
  entity : Entity
  state : Fields := []

/-- The fields of `delta` whose value differs from the one in `state`. -/
def changedFields (state delta : Fields) : Fields :=
  delta.filter fun (field, value) =>
    match state.get? field with
    | some old => !old.same value
    | none => true

namespace Device

/-- The id of the device. -/
def id (device : Device) : String := device.entity.common.id

/-- Whether the frame matches the pattern that every frame has to match.  A device without one
receives nothing. -/
def receives (env : DeviceEnv) (device : Device) (frame : Bytes) : Expr.SessionM Bool :=
  match device.entity.common.state? with
  | none => return false
  | some pattern =>
    pattern.matchesFrame
      { base := env.base, allowEmpty := true, state := device.state, hosts := env.hosts } frame

/-- Whether the frame matches the pattern of a mode.  Without octets it may match only if it has a
guard or exceptions. -/
def inMode (env : DeviceEnv) (device : Device) (frame : Bytes) (pattern? : Option Pattern) :
    Expr.SessionM Bool :=
  match pattern? with
  | none => return false
  | some pattern =>
    pattern.matchesFrame
      { base := env.base
        allowEmpty := pattern.guard?.isSome || !pattern.except.isEmpty
        state := device.state
        hosts := env.hosts } frame

/-- The first of the modes whose pattern matches the frame. -/
def firstMode? (env : DeviceEnv) (device : Device) (frame : Bytes) :
    List (String × Option Pattern) → Expr.SessionM (Option String)
  | [] => return none
  | (mode, pattern?) :: rest => do
    if ← inMode env device frame pattern? then return some mode
    firstMode? env device frame rest

/-- The computed fields, those without a value left out. -/
def computedFields (ctx : Expr.Context) : List (String × String) → Expr.SessionM Fields
  | [] => return []
  | (field, source) :: rest => do
    let value? ← Expr.evalValue? source ctx
    let fields ← computedFields ctx rest
    match value? with
    | some value => return NameMap.insert field value fields
    | none => return fields

/-- The numbers of the kind that the frame holds. -/
def numberFields (env : DeviceEnv) (device : Device) (frame : Bytes) : List (String × Value) :=
  device.entity.features.numbers.filterMap fun role => do
    let value ← (← role.number?).decode? frame env.base
    return (role.field, value)

/-- The fields of the kind that the frame holds: the mode, then the numbers. -/
def extract (env : DeviceEnv) (device : Device) (frame : Bytes) :
    Expr.SessionM (List (String × Value)) := do
  let mode? ← firstMode? env device frame device.entity.features.modes
  let mode := mode?.toList.map fun mode => (device.entity.features.modeField, Value.str mode)
  return mode ++ numberFields env device frame

/-- The fields that the frame gives for the device, if it matches and gives any. -/
def parse? (env : DeviceEnv) (device : Device) (frame : Bytes) :
    Expr.SessionM (Option Fields) := do
  if !(← device.receives env frame) then return none
  let computed ← computedFields (.ofFrame frame device.state env.hosts)
    device.entity.common.stateLambdas
  let extracted ← device.extract env frame
  let delta := extracted.foldl (fun delta (field, value) => delta.insertIfNew field value) computed
  return if delta.isEmpty then none else some delta

/-- The payload of a command, if the device knows it and it can be made. -/
def payload? (env : DeviceEnv) (device : Device) (command : String) (value? : Option Value) :
    Expr.SessionM (Option Bytes) :=
  match device.entity.command? command with
  | none => return none
  | some command => command.payload? value? device.state env.hosts

/-- The fields that a command implies before it is confirmed. -/
def optimisticDelta? (device : Device) (command : String) (value? : Option Value) :
    Option Fields :=
  (device.entity.optimistic? command value?).map fun entry => [entry]

/-- The device with the fields of `delta` taken over, and those that changed. -/
def merge (device : Device) (delta : Fields) : Fields × Device :=
  let changed := changedFields device.state delta
  (changed, { device with state := device.state.union changed })

end Device

end PanelBus
