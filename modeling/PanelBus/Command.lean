import PanelBus.NumberField
import PanelBus.Expr.Engine
/-!
# Command payloads

A command is a template of octets into which a number may be written, or an expression that gives
the octets.
-/

namespace PanelBus

open Json (Value Fields)

/-- How a number is written into a template. -/
inductive ValueCoding where
  /-- As a binary number in two's complement. -/
  | binary
  /-- As two decimal digits an octet. -/
  | bcd
deriving DecidableEq, Repr

/-- How the payload of a command is made. -/
structure Command where
  /-- The template; without one the expression makes the payload. -/
  data : Bytes := []
  /-- Where in the template the number goes; without it the template is sent as it is. -/
  valueOffset? : Option Nat := none
  length : Nat := 1
  order : ByteOrder := .big
  coding : ValueCoding := .binary
  multiply? : Option Binary64 := none
  lambda? : Option String := none
deriving DecidableEq, Repr

namespace Command

/-- Whether there is neither a template nor an expression. -/
def isEmpty (command : Command) : Bool := command.data.isEmpty && command.lambda?.isNone

/-- The number that an argument denotes: a number, a numeral, or a truth value as 0 or 1. -/
def numberOf? : Value → Option Binary64
  | .num n => some n.toBinary64
  | .str s => Binary64.ofText? (Text.trimBy Text.isBlank s.toList)
  | .bool b => some (.ofInt (if b then 1 else 0))
  | _ => none

/-- The octets of a whole number, most significant first.  Numbers at or above `256 ^ len` do not
fit; of negative ones the low octets of the two's complement are taken. -/
def binaryOctets? (len : Nat) (n : Int) : Option Bytes :=
  if (Nat.pow 256 len : Int) ≤ n then none
  else some (Bytes.ofNatBE len (n % (Word.count : Int)).toNat)

/-- The decimal octets of a whole number, most significant first, unless it is negative or has too
many digits. -/
def bcdOctets? (len : Nat) (n : Int) : Option Bytes :=
  if n < 0 ∨ (Nat.pow 100 len : Int) ≤ n then none else some (Bcd.octets len n.toNat)

/-- The octets that stand for an argument: its number times the factor, rounded to a whole one. -/
def encode? (command : Command) (v : Value) : Option Bytes := do
  let x ← numberOf? v
  let scaled := match command.multiply? with
    | some factor => x.mul factor
    | none => x
  let n := scaled.roundWord
  let len := max 1 (min command.length 8)
  let octets ← match command.coding with
    | .binary => binaryOctets? len n
    | .bcd => bcdOctets? len n
  return command.order.arrange octets

/-- The template with the argument written into it. -/
def fillTemplate? (command : Command) (value? : Option Value) : Option Bytes :=
  match command.valueOffset? with
  | none => some command.data
  | some offset => do
    let v ← value?
    let octets ← command.encode? v
    command.data.overwrite? offset octets

/-- The octets that a value lists: whole numbers from 0 to 255. -/
def octetsOf? : Value → Option Bytes
  | .arr items => items.mapM fun
    | .num n => do
      let k ← n.toNat?
      if k < 256 then some (UInt8.ofNat k) else none
    | _ => none
  | _ => none

/-- The payload of the command, if it can be made. -/
def payload? (command : Command) (value? : Option Value) (state : Fields)
    (hosts : NameMap Expr.HostFunction) : Expr.SessionM (Option Bytes) :=
  if command.data.isEmpty then
    match command.lambda? with
    | none => return none
    | some source => do
      let result? ← Expr.evalValue? source (.ofCommand value? state hosts)
      return result?.bind octetsOf?
  else return command.fillTemplate? value?

end Command

end PanelBus
