import PanelBus.Device
/-!
# The devices of a line

Every frame goes to every device, in the order of their registration; a device whose state really
changes gives one change.
-/

namespace PanelBus

open Json (Value Fields)

/-- A change of the state of a device. -/
structure StateChange where
  deviceId : String
  /-- The fields that changed, with their new values. -/
  changes : Fields
  /-- The whole state after the change. -/
  state : Fields

/-- The devices of a line, with what they share. -/
structure Registry where
  /-- What the devices share. -/
  env : DeviceEnv := {}
  /-- The devices in the order of their registration. -/
  devices : List Device := []

namespace Registry

/-- The device of that id. -/
def find? (registry : Registry) (id : String) : Option Device :=
  registry.devices.find? (·.id == id)

/-- The registry with one more device, unless the id is taken. -/
def register (registry : Registry) (entity : Entity) : Except EntityError Registry :=
  let id := entity.common.id
  if (registry.find? id).isSome then .error ⟨id, .duplicateId⟩
  else .ok { registry with devices := registry.devices ++ [{ entity }] }

/-- Checks and registers entities in order, up to the first that is not usable. -/
def registerAll (registry : Registry) :
    List Entity → Expr.SessionM (Except EntityError Registry)
  | [] => return .ok registry
  | entity :: rest => do
    match ← entity.check with
    | .error error => return .error error
    | .ok () =>
      match registry.register entity with
      | .error error => return .error error
      | .ok registry => registerAll registry rest

/-- The registry of these entities. -/
def ofEntities (env : DeviceEnv) (entities : List Entity) :
    Expr.SessionM (Except EntityError Registry) :=
  registerAll { env } entities

/-- Takes over the fields of `delta` and gives the change, if there is one. -/
def applyDelta (device : Device) (delta : Fields) : Option StateChange × Device :=
  let (changed, device) := device.merge delta
  if changed.isEmpty then (none, device)
  else (some ⟨device.id, changed, device.state⟩, device)

/-- Gives the frame to devices in order. -/
def dispatchAll (env : DeviceEnv) (frame : Bytes) :
    List Device → Expr.SessionM (List StateChange × List Device)
  | [] => return ([], [])
  | device :: rest => do
    let (change?, device) ← match ← device.parse? env frame with
      | none => pure (none, device)
      | some delta => pure (applyDelta device delta)
    let (changes, devices) ← dispatchAll env frame rest
    return (change?.toList ++ changes, device :: devices)

/-- Gives a valid frame to every device. -/
def dispatch (registry : Registry) (frame : Bytes) :
    Expr.SessionM (List StateChange × Registry) := do
  let (changes, devices) ← dispatchAll registry.env frame registry.devices
  return (changes, { registry with devices })

/-- The payload of a command, if the device exists and the payload can be made. -/
def payload? (registry : Registry) (id command : String) (value? : Option Value) :
    Expr.SessionM (Option Bytes) :=
  match registry.find? id with
  | none => return none
  | some device => device.payload? registry.env command value?

/-- Changes the devices of that id. -/
def update (registry : Registry) (id : String) (f : Device → Device) : Registry :=
  { registry with devices := registry.devices.map fun d => if d.id == id then f d else d }

/-- Takes over the fields that a command implies before it is confirmed. -/
def applyOptimistic (registry : Registry) (id command : String) (value? : Option Value) :
    Option StateChange × Registry :=
  match registry.find? id with
  | none => (none, registry)
  | some device =>
    match device.optimisticDelta? command value? with
    | none => (none, registry)
    | some delta =>
      ((applyDelta device delta).1, registry.update id fun d => (applyDelta d delta).2)

end Registry

end PanelBus
