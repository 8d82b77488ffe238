import PanelBus.Bcd
import PanelBus.Expr.Operators
import PanelBus.Text.Blank
/-!
# The functions of the expression language

Nine functions belong to the language.  They win over host functions of the same name.
-/

namespace PanelBus.Expr

open Json (Value)

/-- A function of the language. -/
inductive Builtin where
  /-- The number that a binary-coded decimal octet holds. -/
  | bcdToInt
  /-- The binary-coded decimal octet of the last two digits of a number. -/
  | intToBcd
  /-- The number of items, characters or entries. -/
  | len
  | min
  | max
  | abs
  /-- A value as a whole number, cut toward zero. -/
  | int
  | double
  /-- Whether a map has an entry of a name. -/
  | has
deriving DecidableEq, Repr

namespace Builtin

/-- Every function of the language. -/
def all : List Builtin := [.bcdToInt, .intToBcd, .len, .min, .max, .abs, .int, .double, .has]

/-- The name of the function. -/
def name : Builtin → String
  | .bcdToInt => "bcd_to_int"
  | .intToBcd => "int_to_bcd"
  | .len => "len"
  | .min => "min"
  | .max => "max"
  | .abs => "abs"
  | .int => "int"
  | .double => "double"
  | .has => "has"

/-- The function of that name, if the language has one. -/
def ofName? (name : String) : Option Builtin := all.find? (·.name == name)

/-- The only argument. -/
def oneArgument (f : Builtin) (args : List Value) : Except Error Value :=
  match args with
  | [v] => .ok v
  | _ => .error (.type (.arity f.name args.length))

/-- Of two numbers the one to keep: the later one only if it is strictly better. -/
def better (wanted : Ordering) (kept next : Value) : Except Error Value := do
  return if (← order "<" next kept) = wanted then next else kept

/-- The first of the least or greatest numbers among `items`, after `kept`. -/
def bestFrom (f : Builtin) (wanted : Ordering) (kept : Value) : List Value → Except Error Value
  | [] => .ok kept
  | next :: rest => do
    let _ ← number f.name next
    bestFrom f wanted (← better wanted kept next) rest

/-- The least or greatest of the arguments, or of the items of a list that is the only one. -/
def extremum (f : Builtin) (wanted : Ordering) (args : List Value) : Except Error Value :=
  let items :=
    match args with
    | [.arr items] => items
    | _ => args
  match items with
  | [] => .error (.type (.noNumbers f.name))
  | first :: rest => do
    let _ ← number f.name first
    bestFrom f wanted first rest

/-- A value as a whole number. -/
def toInt (v : Value) : Except Error Value :=
  match v with
  | .str s =>
    match Text.readInt? (Text.trimBy Text.isBlank s.toList) with
    | some n =>
      if Word.holds n then .ok (.int n) else .error (.type (.noNumeral Builtin.int.name s))
    | none => .error (.type (.noNumeral Builtin.int.name s))
  | .bool b => .ok (.int (if b then 1 else 0))
  | v => do
    match ← number Builtin.int.name v with
    | .int n => return .int n
    | .float x =>
      match x.trunc? with
      | some n =>
        if x.magnitudeBelow Word.half then return .int n else throw (.arithmetic (.outOfRange x))
      | none => throw (.arithmetic (.outOfRange x))

/-- A value as a binary number. -/
def toDouble (v : Value) : Except Error Value :=
  match v with
  | .str s =>
    match Binary64.ofText? (Text.trimBy Text.isBlank s.toList) with
    | some x => Scalar.toValue (.float x)
    | none => .error (.type (.noNumeral Builtin.double.name s))
  | v => do
    let x ← number Builtin.double.name v
    Scalar.toValue (.float x.toBinary64)

/-- The result of the function on its arguments. -/
def apply (f : Builtin) (args : List Value) : Except Error Value :=
  match f with
  | .bcdToInt => do
    let n ← integer f.name (← f.oneArgument args)
    if 0 ≤ n ∧ n < 256 then return .nat (Bcd.toNat (UInt8.ofNat n.toNat))
    else throw (.arithmetic (.notOctet f.name n))
  | .intToBcd => do
    let n ← integer f.name (← f.oneArgument args)
    if 0 ≤ n ∧ n < (Word.shortCount : Int) then return .nat (Bcd.ofNat n.toNat).toNat
    else throw (.arithmetic (.negative f.name n))
  | .len => do
    match ← f.oneArgument args with
    | .arr items => return .nat items.length
    | .str s => return .nat s.length
    | .obj entries => return .nat entries.length
    | v => throw (.type (.noLength v.typeName))
  | .min => f.extremum .lt args
  | .max => f.extremum .gt args
  | .abs => do
    match ← number f.name (← f.oneArgument args) with
    | .int n => wordOr .overflow n.natAbs
    | .float x => Scalar.toValue (.float x.abs)
  | .int => do toInt (← f.oneArgument args)
  | .double => do toDouble (← f.oneArgument args)
  | .has =>
    match args with
    | [.obj entries, .str name] => .ok (.bool (NameMap.has entries name))
    | _ => .error (.type .membership)

end Builtin

end PanelBus.Expr
