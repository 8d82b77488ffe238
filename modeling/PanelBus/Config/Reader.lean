import PanelBus.Config.Gateway
import PanelBus.Config.Record
/-!
# Reading configurations

A configuration is a data value.  An optional member may be null; of an entity the members of its
kind are read before the common ones.  Where one of several names is expected, an object with that
name as its only key does as well, as long as the value of the key says nothing.
-/

namespace PanelBus.Config

open Json (Value Number Fields)

variable {α : Type}

/-! ## Single values -/

/-- A whole number below `bound`. -/
def readNat (bound : Nat) (v : Value) : Result Nat :=
  match v with
  | .num n =>
    match n.toNat? with
    | some k => if k < bound then .ok k else .error .shape
    | none => .error .shape
  | _ => .error .shape

/-- A whole number of 64 bits. -/
def readSize (v : Value) : Result Nat := readNat Word.count v

/-- A truth value. -/
def readBool (v : Value) : Result Bool :=
  match v with
  | .bool b => .ok b
  | _ => .error .shape

/-- A text. -/
def readText (v : Value) : Result String :=
  match v with
  | .str s => .ok s
  | _ => .error .shape

/-- A number of either form, as a binary one. -/
def readBinary64 (v : Value) : Result Binary64 :=
  match v with
  | .num n => .ok n.toBinary64
  | _ => .error .shape

/-- Where a value stands. -/
inductive Place where
  /-- By itself, or within a value that does. -/
  | alone
  /-- Within an entity. -/
  | entity
deriving DecidableEq, Repr

/-- Whether a value says nothing, as null does, and within an entity also the empty object. -/
def Place.isVoid : Place → Value → Bool
  | _, .null => true
  | .entity, .obj entries => entries.isEmpty
  | _, _ => false

/-- What a name stands for. -/
def named (names : List (String × α)) (s : String) : Result α :=
  match names.lookup s with
  | some a => .ok a
  | none => .error .shape

/-- One of several names, as a text or as the only key of an object. -/
def readName (place : Place) (names : List (String × α)) : Value → Result α
  | .str s => named names s
  | .obj [(s, v)] => if place.isVoid v then named names s else .error .shape
  | _ => .error .shape

/-- A list. -/
def readList (read : Value → Result α) (v : Value) : Result (List α) :=
  match v with
  | .arr items => items.mapM read
  | _ => .error .shape

/-- A map of texts. -/
def readTexts (v : Value) : Result (NameMap String) :=
  match v with
  | .obj entries => entries.mapM fun (key, value) => (readText value).map fun s => (key, s)
  | _ => .error .shape

/-- The numeral of an octet: decimal digits, or hexadecimal ones behind `0x` or `0X`, in either
case with an optional plus sign before the digits. -/
def octetNumeral? (s : List Char) : Option Nat :=
  match s with
  | '0' :: 'x' :: digits => Text.readNat? 16 digits
  | '0' :: 'X' :: digits => Text.readNat? 16 digits
  | digits => Text.readNat? 10 digits

/-- An octet: a number, or its numeral with blanks around it. -/
def readOctet (v : Value) : Result UInt8 :=
  match v with
  | .num n =>
    match n.toNat? with
    | some k => if k < 256 then .ok (UInt8.ofNat k) else .error (.octetRange n)
    | none => .error (.octetRange n)
  | .str s =>
    let t := Text.trim s
    match octetNumeral? t.toList with
    | some k => if k < 256 then .ok (UInt8.ofNat k) else .error (.octetText t)
    | none => .error (.octetText t)
  | _ => .error .octetType

/-- A list of octets. -/
def readOctets (v : Value) : Result Bytes := readList readOctet v

/-- A mask: one octet for all positions, or a list of octets and nulls. -/
def readMask (v : Value) : Result Mask :=
  match v with
  | .arr items => (items.mapM (readOption readOctet)).map .perOctet
  | v => (readOctet v).map .uniform

/-! ## Records -/

/-- A retry policy. -/
def readRetry : Value → Result RetryPolicy :=
  record ["attempts", "timeout", "interval"] fun fields =>
    (fun attempts timeout interval => { attempts, timeout, interval })
      <$> member fields "attempts" 5 (readNat Word.shortCount)
      <*> member fields "timeout" 2000 readSize
      <*> member fields "interval" 125 readSize

/-- The settings of a line. -/
def readSettings : Value → Result LineSettings :=
  record
    ["rx_header", "rx_footer", "rx_length", "rx_min_length", "rx_max_length", "rx_checksum",
     "rx_checksum2", "rx_timeout", "tx_header", "tx_footer", "tx_checksum", "tx_checksum2",
     "tx_delay", "retry"] fun fields =>
    (fun rxHeader rxFooter rxLength? rxMinLength? rxMaxLength? rxChecksum? rxChecksum2? rxTimeout?
        txHeader txFooter txChecksum? txChecksum2? txDelay? retryPolicy? =>
      { rxHeader, rxFooter, rxLength?, rxMinLength?, rxMaxLength?, rxChecksum?, rxChecksum2?,
        rxTimeout?, txHeader, txFooter, txChecksum?, txChecksum2?, txDelay?, retryPolicy? })
      <$> member fields "rx_header" [] readOctets
      <*> member fields "rx_footer" [] readOctets
      <*> optional fields "rx_length" readSize
      <*> optional fields "rx_min_length" readSize
      <*> optional fields "rx_max_length" readSize
      <*> optional fields "rx_checksum" readText
      <*> optional fields "rx_checksum2" readText
      <*> optional fields "rx_timeout" readSize
      <*> member fields "tx_header" [] readOctets
      <*> member fields "tx_footer" [] readOctets
      <*> optional fields "tx_checksum" readText
      <*> optional fields "tx_checksum2" readText
      <*> optional fields "tx_delay" readSize
      <*> optional fields "retry" readRetry

/-- A pattern from its members, once its exceptions are read. -/
def patternOf (except : Result (List Pattern)) (fields : Fields) : Checked Pattern :=
  (fun offset data mask? inverted guard? except =>
    { offset, data, mask?, inverted, guard?, except })
    <$> member fields "offset" 0 readSize
    <*> member fields "data" [] readOctets
    <*> optional fields "mask" readMask
    <*> member fields "inverted" false readBool
    <*> optional fields "guard" readText
    <*> .ofResult "except" except

/-- The members of a pattern in the order of their declaration. -/
def patternKeys : List String := ["offset", "data", "mask", "inverted", "guard", "except"]

mutual

/-- A pattern. -/
def readPattern : Value → Result Pattern
  | .obj entries => record patternKeys (patternOf (exceptEntry entries)) (.obj entries)
  | .arr items => record patternKeys (patternOf (exceptItem 5 items)) (.arr items)
  | _ => .error .shape

/-- The exceptions among the entries of a pattern. -/
def exceptEntry : List (String × Value) → Result (List Pattern)
  | [] => .ok []
  | (key, v) :: rest => if key = "except" then readPatterns v else exceptEntry rest

/-- The exceptions that stand behind `n` other members of a pattern. -/
def exceptItem : Nat → List Value → Result (List Pattern)
  | _, [] => .ok []
  | 0, v :: _ => readPatterns v
  | n + 1, _ :: rest => exceptItem n rest

/-- A list of patterns. -/
def readPatterns : Value → Result (List Pattern)
  | .arr items => readPatternItems items
  | _ => .error .shape

/-- The patterns in list items. -/
def readPatternItems : List Value → Result (List Pattern)
  | [] => .ok []
  | v :: rest => do
    let pattern ← readPattern v
    let patterns ← readPatternItems rest
    return pattern :: patterns

end

/-- The names of the octet orders. -/
def orderNames : List (String × ByteOrder) := [("big", .big), ("little", .little)]

/-- The names of the number codings. -/
def numberCodingNames : List (String × NumberCoding) :=
  [("none", .binary), ("bcd", .bcd), ("ascii", .ascii), ("signed_byte_half_degree", .halfDegree)]

/-- The names of the value codings. -/
def valueCodingNames : List (String × ValueCoding) := [("none", .binary), ("bcd", .bcd)]

/-- A number field. -/
def readNumber (place : Place) : Value → Result NumberField :=
  record ["offset", "length", "signed", "endian", "decode", "precision", "mapping"] fun fields =>
    (fun offset length signed order coding precision mapping =>
      { offset, length, signed, order, coding, precision, mapping })
      <$> member fields "offset" 0 readSize
      <*> member fields "length" 1 readSize
      <*> member fields "signed" false readBool
      <*> member fields "endian" .big (readName place orderNames)
      <*> member fields "decode" .binary (readName place numberCodingNames)
      <*> member fields "precision" 0 (readNat Word.shortCount)
      <*> member fields "mapping" [] readTexts

/-- A command. -/
def readCommand (place : Place) : Value → Result Command :=
  record
    ["data", "value_offset", "length", "endian", "value_encode", "multiply", "lambda"] fun fields =>
    (fun data valueOffset? length order coding multiply? lambda? =>
      { data, valueOffset?, length, order, coding, multiply?, lambda? })
      <$> member fields "data" [] readOctets
      <*> optional fields "value_offset" readSize
      <*> member fields "length" 1 readSize
      <*> member fields "endian" .big (readName place orderNames)
      <*> member fields "value_encode" .binary (readName place valueCodingNames)
      <*> optional fields "multiply" readBinary64
      <*> optional fields "lambda" readText

/-! ## Entities -/

/-- A pattern that an entity may have. -/
def patternPart (fields : Fields) (key : String) : Checked (Option Pattern) :=
  optional fields key readPattern

/-- A number field that an entity may have. -/
def numberPart (fields : Fields) (key : String) : Checked (Option NumberField) :=
  optional fields key (readNumber .entity)

/-- A command that an entity may have. -/
def commandPart (fields : Fields) (key : String) : Checked (Option Command) :=
  optional fields key (readCommand .entity)

/-- What the kind adds, from the members of an entity. -/
def featuresOf (fields : Fields) : EntityKind → Checked Features
  | .light =>
    (fun on? off? brightness? turnOn? turnOff? setBrightness? =>
      .light { on?, off?, brightness?, turnOn?, turnOff?, setBrightness? })
      <$> patternPart fields "state_on"
      <*> patternPart fields "state_off"
      <*> numberPart fields "state_brightness"
      <*> commandPart fields "command_on"
      <*> commandPart fields "command_off"
      <*> commandPart fields "command_brightness"
  | .switch =>
    (fun on? off? turnOn? turnOff? => .switch { on?, off?, turnOn?, turnOff? })
      <$> patternPart fields "state_on"
      <*> patternPart fields "state_off"
      <*> commandPart fields "command_on"
      <*> commandPart fields "command_off"
  | .binarySensor =>
    (fun on? off? => .binarySensor { on?, off? })
      <$> patternPart fields "state_on"
      <*> patternPart fields "state_off"
  | .fan =>
    (fun on? off? speed? turnOn? turnOff? setSpeed? =>
      .fan { on?, off?, speed?, turnOn?, turnOff?, setSpeed? })
      <$> patternPart fields "state_on"
      <*> patternPart fields "state_off"
      <*> numberPart fields "state_speed"
      <*> commandPart fields "command_on"
      <*> commandPart fields "command_off"
      <*> commandPart fields "command_speed"
  | .valve =>
    (fun isOpen? isClosed? openUp? close? => .valve { isOpen?, isClosed?, openUp?, close? })
      <$> patternPart fields "state_open"
      <*> patternPart fields "state_closed"
      <*> commandPart fields "command_open"
      <*> commandPart fields "command_close"
  | .climate =>
    (fun off? heat? cool? current? target? turnOff? startHeat? startCool? setTarget? =>
      .climate { off?, heat?, cool?, current?, target?, turnOff?, startHeat?, startCool?,
                 setTarget? })
      <$> patternPart fields "state_off"
      <*> patternPart fields "state_heat"
      <*> patternPart fields "state_cool"
      <*> numberPart fields "state_temperature_current"
      <*> numberPart fields "state_temperature_target"
      <*> commandPart fields "command_off"
      <*> commandPart fields "command_heat"
      <*> commandPart fields "command_cool"
      <*> commandPart fields "command_temperature"
  | .sensor => (fun number? => .sensor { number? }) <$> numberPart fields "state_number"
  | .button => (fun press? => .button { press? }) <$> commandPart fields "command_press"

/-- What every entity has, from the members of an entity. -/
def commonOf (fields : Fields) : Checked EntityCommon :=
  (fun id name state? stateLambdas update? optimistic retryPolicy? =>
    { id, name, state?, stateLambdas, update?, optimistic, retryPolicy? })
    <$> required fields "id" readText
    <*> member fields "name" "" readText
    <*> patternPart fields "state"
    <*> member fields "state_lambdas" [] readTexts
    <*> commandPart fields "command_update"
    <*> member fields "optimistic" false readBool
    <*> optional fields "retry" readRetry

/-- The names of the entity kinds. -/
def kindNames : List (String × EntityKind) := EntityKind.all.map fun kind => (kind.name, kind)

/-- The kind of an entity, which is named by a text. -/
def kindOf (fields : Fields) : Result EntityKind :=
  match fields.get? "type" with
  | some (.str s) => named kindNames s
  | _ => .error .shape

/-- An entity. -/
def readEntity (v : Value) : Result Entity :=
  match v with
  | .obj fields => do
    let kind ← kindOf fields
    let features ← (featuresOf fields kind).resolve (NameMap.names fields)
    let common ← (commonOf fields).resolve (NameMap.names fields)
    return { common, features }
  | _ => .error .shape

/-- A gateway. -/
def readGateway : Value → Result GatewayConfig :=
  record ["port_id", "packet_defaults", "entities"] fun fields =>
    (fun id settings entities => { id, settings, entities })
      <$> member fields "port_id" "" readText
      <*> member fields "packet_defaults" {} readSettings
      <*> member fields "entities" [] (readList readEntity)

end PanelBus.Config
