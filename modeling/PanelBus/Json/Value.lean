import PanelBus.Binary64.Basic
import PanelBus.NameMap
/-!
# Data values

A value is null, a truth value, a number, a text, a list, or a map from names.  Whole numbers keep
apart from binary floating-point numbers: `1` and `1.0` are different values.  A map is a list of
entries in strictly rising order of their names, so that equal maps are equal lists.
-/

namespace PanelBus.Json

/-- A number: a whole one from `-2 ^ 63` up to below `2 ^ 64`, or a finite binary one. -/
inductive Number where
  | int (n : Int)
  /-- A binary floating-point number. -/
  | float (x : Binary64)
deriving DecidableEq, Repr

/-- A data value. -/
inductive Value where
  | null
  | bool (b : Bool)
  | num (n : Number)
  | str (s : String)
  | arr (items : List Value)
  /-- A map, its entries in strictly rising order of their names. -/
  | obj (entries : List (String × Value))

/-- A map of values, as device states and records are. -/
abbrev Fields := NameMap Value

namespace Number

/-- The binary number nearest to the number. -/
def toBinary64 : Number → Binary64
  | .int n => .ofInt n
  | .float x => x

/-- Equality as data: whole numbers equal only whole numbers, and both zeros of the binary format
are equal. -/
def same : Number → Number → Bool
  | .int a, .int b => a == b
  | .float x, .float y => x.numEq y
  | _, _ => false

/-- The number as a whole one below `2 ^ 64`, unless it is negative or of the binary format. -/
def toNat? : Number → Option Nat
  | .int n => if 0 ≤ n then some n.toNat else none
  | .float _ => none

end Number

namespace Value

/-- A whole number as a value. -/
def int (n : Int) : Value := .num (.int n)

/-- A natural number as a value. -/
def nat (n : Nat) : Value := .num (.int n)

/-- A binary number as a value. -/
def float (x : Binary64) : Value := .num (.float x)

/-- A map with these entries in any order. -/
def ofEntries (entries : List (String × Value)) : Value := .obj (NameMap.ofList entries)

/-- The value, or null if there is none. -/
def ofOption (value? : Option Value) : Value := value?.getD .null

/-- The name of the type of the value. -/
def typeName : Value → String
  | .null => "null"
  | .bool _ => "bool"
  | .num _ => "number"
  | .str _ => "string"
  | .arr _ => "list"
  | .obj _ => "map"

mutual

/-- Equality as data, by recursion on the value. -/
def same : Value → Value → Bool
  | .null, .null => true
  | .bool a, .bool b => a == b
  | .num a, .num b => a.same b
  | .str a, .str b => a == b
  | .arr a, .arr b => sameItems a b
  | .obj a, .obj b => sameEntries a b
  | _, _ => false

/-- Equality of lists of values, item by item. -/
def sameItems : List Value → List Value → Bool
  | [], [] => true
  | a :: as, b :: bs => same a b && sameItems as bs
  | _, _ => false

/-- Equality of maps, entry by entry. -/
def sameEntries : List (String × Value) → List (String × Value) → Bool
  | [], [] => true
  | (k, a) :: as, (l, b) :: bs => k == l && same a b && sameEntries as bs
  | _, _ => false

end

/-- Whether the value counts as true: null, false, zero, the empty text and the empty list do
not. -/
def truthy : Value → Bool
  | .null => false
  | .bool b => b
  | .num n => !n.toBinary64.isZero
  | .str s => !s.isEmpty
  | .arr items => !items.isEmpty
  | .obj _ => true

end Value

end PanelBus.Json
