import PanelBus.Config.Reader
/-!
# Writing configurations

A configuration is written with all its members, defaults included, octets as whole numbers.  Some
members are left out when they are absent or empty; other absent ones are written as null.
-/

namespace PanelBus.Config

open Json (Value)

variable {α : Type}

/-- The name of a value in a list of names. -/
def nameIn [DecidableEq α] (names : List (String × α)) (a : α) : Value :=
  .ofOption ((names.find? (·.2 = a)).map fun (name, _) => .str name)

/-- Octets as a list of whole numbers. -/
def writeOctets (bytes : Bytes) : Value := .arr (bytes.map fun b => .nat b.toNat)

/-- An optional value, null if absent. -/
def writeOption (write : α → Value) (a? : Option α) : Value := .ofOption (a?.map write)

/-- A member that is left out when it is absent. -/
def entryIf (key : String) (write : α → Value) (a? : Option α) : List (String × Value) :=
  (a?.map fun a => (key, write a)).toList

/-- A map of texts. -/
def writeTexts (texts : NameMap String) : Value := .obj (texts.mapValues .str)

/-- A member with a map of texts that is left out when it is empty. -/
def textsIf (key : String) (texts : NameMap String) : List (String × Value) :=
  if texts.isEmpty then [] else [(key, writeTexts texts)]

/-- A binary number, null if it is not finite. -/
def writeBinary64 (x : Binary64) : Value := if x.isFinite then .float x else .null

/-- A mask. -/
def writeMask : Mask → Value
  | .uniform bits => .nat bits.toNat
  | .perOctet bits => .arr (bits.map (writeOption fun b => .nat b.toNat))

/-- A retry policy. -/
def writeRetry (retry : RetryPolicy) : Value :=
  .ofEntries
    [("attempts", .nat retry.attempts), ("timeout", .nat retry.timeout),
     ("interval", .nat retry.interval)]

/-- The settings of a line. -/
def writeSettings (s : LineSettings) : Value :=
  .ofEntries
    [("rx_header", writeOctets s.rxHeader), ("rx_footer", writeOctets s.rxFooter),
     ("rx_length", writeOption .nat s.rxLength?),
     ("rx_min_length", writeOption .nat s.rxMinLength?),
     ("rx_max_length", writeOption .nat s.rxMaxLength?),
     ("rx_checksum", writeOption .str s.rxChecksum?),
     ("rx_checksum2", writeOption .str s.rxChecksum2?),
     ("rx_timeout", writeOption .nat s.rxTimeout?),
     ("tx_header", writeOctets s.txHeader), ("tx_footer", writeOctets s.txFooter),
     ("tx_checksum", writeOption .str s.txChecksum?),
     ("tx_checksum2", writeOption .str s.txChecksum2?),
     ("tx_delay", writeOption .nat s.txDelay?), ("retry", writeOption writeRetry s.retryPolicy?)]

mutual

/-- A pattern. -/
def writePattern : Pattern → Value
  | ⟨offset, data, mask?, inverted, guard?, except⟩ =>
    .ofEntries
      ([("offset", .nat offset), ("data", writeOctets data), ("inverted", .bool inverted)] ++
        entryIf "mask" writeMask mask? ++ entryIf "guard" .str guard? ++
        (if except.isEmpty then [] else [("except", .arr (writePatternItems except))]))

/-- Patterns as list items. -/
def writePatternItems : List Pattern → List Value
  | [] => []
  | pattern :: rest => writePattern pattern :: writePatternItems rest

end

/-- A number field. -/
def writeNumber (number : NumberField) : Value :=
  .ofEntries
    ([("offset", .nat number.offset), ("length", .nat number.length),
      ("signed", .bool number.signed), ("endian", nameIn orderNames number.order),
      ("decode", nameIn numberCodingNames number.coding),
      ("precision", .nat number.precision)] ++ textsIf "mapping" number.mapping)

/-- A command. -/
def writeCommand (command : Command) : Value :=
  .ofEntries
    ([("data", writeOctets command.data), ("length", .nat command.length),
      ("endian", nameIn orderNames command.order),
      ("value_encode", nameIn valueCodingNames command.coding)] ++
      entryIf "value_offset" .nat command.valueOffset? ++
      entryIf "multiply" writeBinary64 command.multiply? ++ entryIf "lambda" .str command.lambda?)

/-- The members that every entity has. -/
def commonEntries (common : EntityCommon) : List (String × Value) :=
  [("id", .str common.id), ("name", .str common.name), ("optimistic", .bool common.optimistic)] ++
    entryIf "state" writePattern common.state? ++ textsIf "state_lambdas" common.stateLambdas ++
    entryIf "command_update" writeCommand common.update? ++
    entryIf "retry" writeRetry common.retryPolicy?

/-- The members that the kind of an entity adds. -/
def featureEntries : Features → List (String × Value)
  | .light c =>
    [("state_on", writeOption writePattern c.on?), ("state_off", writeOption writePattern c.off?),
     ("state_brightness", writeOption writeNumber c.brightness?),
     ("command_on", writeOption writeCommand c.turnOn?),
     ("command_off", writeOption writeCommand c.turnOff?),
     ("command_brightness", writeOption writeCommand c.setBrightness?)]
  | .switch c =>
    [("state_on", writeOption writePattern c.on?), ("state_off", writeOption writePattern c.off?),
     ("command_on", writeOption writeCommand c.turnOn?),
     ("command_off", writeOption writeCommand c.turnOff?)]
  | .binarySensor c =>
    [("state_on", writeOption writePattern c.on?), ("state_off", writeOption writePattern c.off?)]
  | .fan c =>
    [("state_on", writeOption writePattern c.on?), ("state_off", writeOption writePattern c.off?),
     ("state_speed", writeOption writeNumber c.speed?),
     ("command_on", writeOption writeCommand c.turnOn?),
     ("command_off", writeOption writeCommand c.turnOff?),
     ("command_speed", writeOption writeCommand c.setSpeed?)]
  | .valve c =>
    [("state_open", writeOption writePattern c.isOpen?),
     ("state_closed", writeOption writePattern c.isClosed?),
     ("command_open", writeOption writeCommand c.openUp?),
     ("command_close", writeOption writeCommand c.close?)]
  | .climate c =>
    [("state_off", writeOption writePattern c.off?),
     ("state_heat", writeOption writePattern c.heat?),
     ("state_cool", writeOption writePattern c.cool?),
     ("state_temperature_current", writeOption writeNumber c.current?),
     ("state_temperature_target", writeOption writeNumber c.target?),
     ("command_off", writeOption writeCommand c.turnOff?),
     ("command_heat", writeOption writeCommand c.startHeat?),
     ("command_cool", writeOption writeCommand c.startCool?),
     ("command_temperature", writeOption writeCommand c.setTarget?)]
  | .sensor c => [("state_number", writeOption writeNumber c.number?)]
  | .button c => [("command_press", writeOption writeCommand c.press?)]

/-- An entity. -/
def writeEntity (entity : Entity) : Value :=
  .ofEntries (("type", .str entity.kind.name) :: commonEntries entity.common ++
    featureEntries entity.features)

/-- A gateway. -/
def writeGateway (gateway : GatewayConfig) : Value :=
  .ofEntries
    [("port_id", .str gateway.id), ("packet_defaults", writeSettings gateway.settings),
     ("entities", .arr (gateway.entities.map writeEntity))]

end PanelBus.Config
