import PanelBus.Command
import PanelBus.Line.Basic
import PanelBus.Pattern.Basic
/-!
# Entities

An entity is the description of one device on the line.  Every entity has common parts; its kind
adds the patterns, number fields and commands that the kind knows.  `Features` gives all kinds one
shape: a mode decided by patterns, numbers, commands, and the state that a command implies.
-/

namespace PanelBus

open Json (Value)

/-- The kinds of entities. -/
inductive EntityKind where
  | light | switch | binarySensor | fan | valve | climate | sensor | button
deriving DecidableEq, Repr

/-- Every kind. -/
def EntityKind.all : List EntityKind :=
  [.light, .switch, .binarySensor, .fan, .valve, .climate, .sensor, .button]

/-- The name of the kind in configurations. -/
def EntityKind.name : EntityKind → String
  | .light => "light"
  | .switch => "switch"
  | .binarySensor => "binary_sensor"
  | .fan => "fan"
  | .valve => "valve"
  | .climate => "climate"
  | .sensor => "sensor"
  | .button => "button"

/-- What every entity has. -/
structure EntityCommon where
  /-- The name by which commands and events refer to the device. -/
  id : String
  /-- The name for people; without one the id is shown. -/
  name : String := ""
  /-- The pattern that a frame has to match before anything is read from it. -/
  state? : Option Pattern := none
  /-- The sources of computed states, by field. -/
  stateLambdas : NameMap String := []
  /-- The command that asks the device for its state. -/
  update? : Option Command := none
  /-- Whether a command changes the state before the device confirms it. -/
  optimistic : Bool := false
  /-- The repetition of commands, in place of that of the line. -/
  retryPolicy? : Option RetryPolicy := none

/-- The common parts of an entity that is named by its id. -/
def EntityCommon.ofId (id : String) : EntityCommon := { id, name := id }

/-- The name to show. -/
def EntityCommon.displayName (common : EntityCommon) : String :=
  if common.name.isEmpty then common.id else common.name

/-- A lamp. -/
structure Light where
  on? : Option Pattern := none
  off? : Option Pattern := none
  brightness? : Option NumberField := none
  turnOn? : Option Command := none
  turnOff? : Option Command := none
  setBrightness? : Option Command := none

/-- A switch. -/
structure Switch where
  on? : Option Pattern := none
  off? : Option Pattern := none
  turnOn? : Option Command := none
  turnOff? : Option Command := none

/-- A sensor with two states. -/
structure BinarySensor where
  on? : Option Pattern := none
  off? : Option Pattern := none

/-- A fan. -/
structure Fan where
  on? : Option Pattern := none
  off? : Option Pattern := none
  speed? : Option NumberField := none
  turnOn? : Option Command := none
  turnOff? : Option Command := none
  setSpeed? : Option Command := none

/-- A valve. -/
structure Valve where
  isOpen? : Option Pattern := none
  isClosed? : Option Pattern := none
  openUp? : Option Command := none
  close? : Option Command := none

/-- A heater or cooler. -/
structure Climate where
  off? : Option Pattern := none
  heat? : Option Pattern := none
  cool? : Option Pattern := none
  current? : Option NumberField := none
  target? : Option NumberField := none
  turnOff? : Option Command := none
  startHeat? : Option Command := none
  startCool? : Option Command := none
  setTarget? : Option Command := none

/-- A sensor with a number. -/
structure Sensor where
  number? : Option NumberField := none

/-- A button. -/
structure Button where
  press? : Option Command := none

/-- What the kind of an entity adds. -/
inductive Features where
  | light (parts : Light)
  | switch (parts : Switch)
  | binarySensor (parts : BinarySensor)
  | fan (parts : Fan)
  | valve (parts : Valve)
  | climate (parts : Climate)
  | sensor (parts : Sensor)
  | button (parts : Button)

/-- A number that a kind reads from frames. -/
structure NumberRole where
  field : String
  /-- The key of its description in configurations. -/
  key : String
  number? : Option NumberField

namespace Features

/-- The kind that has these features. -/
def kind : Features → EntityKind
  | .light _ => .light
  | .switch _ => .switch
  | .binarySensor _ => .binarySensor
  | .fan _ => .fan
  | .valve _ => .valve
  | .climate _ => .climate
  | .sensor _ => .sensor
  | .button _ => .button

/-- The state field that says in which mode the device is. -/
def modeField : Features → String
  | .climate _ => "mode"
  | _ => "state"

/-- The modes that the kind tells apart, with the patterns that decide for them, in the order in
which they are tried. -/
def modes : Features → List (String × Option Pattern)
  | .light c => [("ON", c.on?), ("OFF", c.off?)]
  | .switch c => [("ON", c.on?), ("OFF", c.off?)]
  | .binarySensor c => [("ON", c.on?), ("OFF", c.off?)]
  | .fan c => [("ON", c.on?), ("OFF", c.off?)]
  | .valve c => [("OPEN", c.isOpen?), ("CLOSED", c.isClosed?)]
  | .climate c => [("off", c.off?), ("heat", c.heat?), ("cool", c.cool?)]
  | .sensor _ => []
  | .button _ => []

/-- The patterns of the kind that are checked before the device exists. -/
def patterns : Features → List (Option Pattern)
  | .light c => [c.on?, c.off?]
  | .switch c => [c.on?, c.off?]
  | .binarySensor c => [c.on?, c.off?]
  | .fan c => [c.on?, c.off?]
  | .valve c => [c.isOpen?, c.isClosed?]
  | .climate c => [c.off?, c.heat?, c.cool?]
  | .sensor _ => []
  | .button _ => []

/-- The numbers that the kind reads. -/
def numbers : Features → List NumberRole
  | .light c => [⟨"brightness", "state_brightness", c.brightness?⟩]
  | .fan c => [⟨"speed", "state_speed", c.speed?⟩]
  | .climate c =>
    [⟨"current_temperature", "state_temperature_current", c.current?⟩,
     ⟨"target_temperature", "state_temperature_target", c.target?⟩]
  | .sensor c => [⟨"value", "state_number", c.number?⟩]
  | .switch _ | .binarySensor _ | .valve _ | .button _ => []

/-- The commands of the kind that are checked before the device exists, by name. -/
def commands : Features → List (String × Option Command)
  | .light c => [("on", c.turnOn?), ("off", c.turnOff?), ("brightness", c.setBrightness?)]
  | .switch c => [("on", c.turnOn?), ("off", c.turnOff?)]
  | .fan c => [("on", c.turnOn?), ("off", c.turnOff?), ("speed", c.setSpeed?)]
  | .valve c => [("open", c.openUp?), ("close", c.close?)]
  | .climate c =>
    [("off", c.turnOff?), ("heat", c.startHeat?), ("cool", c.startCool?),
     ("temperature", c.setTarget?)]
  | .button c => [("press", c.press?)]
  | .binarySensor _ | .sensor _ => []

/-- The command of that name, if the kind knows it and it is described. -/
def command? : Features → String → Option Command
  | .light c, "on" => c.turnOn?
  | .light c, "off" => c.turnOff?
  | .light c, "brightness" => c.setBrightness?
  | .switch c, "on" => c.turnOn?
  | .switch c, "off" => c.turnOff?
  | .fan c, "on" => c.turnOn?
  | .fan c, "off" => c.turnOff?
  | .fan c, "speed" => c.setSpeed?
  | .valve c, "open" => c.openUp?
  | .valve c, "close" => c.close?
  | .climate c, "off" => c.turnOff?
  | .climate c, "heat" => c.startHeat?
  | .climate c, "cool" => c.startCool?
  | .climate c, "temperature" => c.setTarget?
  | .button c, "press" => c.press?
  | _, _ => none

/-- The state that commands without an argument imply, by name. -/
def impliedModes : Features → List (String × String)
  | .light _ | .switch _ | .fan _ => [("on", "ON"), ("off", "OFF")]
  | .valve _ => [("open", "OPEN"), ("close", "CLOSED")]
  | .climate _ => [("off", "off"), ("heat", "heat"), ("cool", "cool")]
  | .binarySensor _ | .sensor _ | .button _ => []

/-- The state fields that take the argument of a command, by name of the command. -/
def impliedNumbers : Features → List (String × String)
  | .light _ => [("brightness", "brightness")]
  | .fan _ => [("speed", "speed")]
  | .climate _ => [("temperature", "target_temperature")]
  | .switch _ | .valve _ | .binarySensor _ | .sensor _ | .button _ => []

/-- The state field and value that a command implies. -/
def implied? (features : Features) (command : String) (value? : Option Value) :
    Option (String × Value) :=
  match features.impliedModes.lookup command with
  | some mode => some (features.modeField, .str mode)
  | none =>
    match features.impliedNumbers.lookup command with
    | some field => value?.map fun v => (field, v)
    | none => none

end Features

/-- The description of a device. -/
structure Entity where
  common : EntityCommon
  features : Features

namespace Entity

/-- The kind of the entity. -/
def kind (entity : Entity) : EntityKind := entity.features.kind

/-- The commands that are described, by name: those of the kind, then the one that asks for the
state. -/
def commands (entity : Entity) : List (String × Command) :=
  (entity.features.commands ++ [("update", entity.common.update?)]).filterMap
    fun (name, command?) => command?.map fun command => (name, command)

/-- The numbers that are described, by key. -/
def numbers (entity : Entity) : List (String × NumberField) :=
  entity.features.numbers.filterMap fun role => role.number?.map fun number => (role.key, number)

/-- The command of that name. -/
def command? (entity : Entity) (name : String) : Option Command :=
  if name = "update" then entity.common.update?
  else entity.features.command? name

/-- The state that a command implies before it is confirmed. -/
def optimistic? (entity : Entity) (command : String) (value? : Option Value) :
    Option (String × Value) :=
  if entity.common.optimistic then entity.features.implied? command value? else none

end Entity

end PanelBus
