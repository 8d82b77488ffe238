import PanelBus.Expr.Basic
import PanelBus.Expr.Error
import PanelBus.Json.Printer
/-!
# The operators of the expression language

Arithmetic is exact on signed words of 64 bits and fails where the exact result is not one; a
quotient that is not whole, and everything with a binary number, is computed in the binary format.
A whole number above the words counts as a binary number.
-/

namespace PanelBus.Expr

open Json (Value Number)

/-- A number as arithmetic sees it. -/
inductive Scalar where
  /-- A signed word of 64 bits. -/
  | int (n : Int)
  | float (x : Binary64)
deriving DecidableEq, Repr

namespace Scalar

/-- The number that a value is, if it is one. -/
def ofValue? : Value → Option Scalar
  | .num (.int n) => some (if Word.holds n then .int n else .float (.ofInt n))
  | .num (.float x) => some (.float x)
  | _ => none

/-- The nearest binary number. -/
def toBinary64 : Scalar → Binary64
  | .int n => .ofInt n
  | .float x => x

/-- The number as a value, unless it is an infinity or no number. -/
def toValue : Scalar → Except Error Value
  | .int n => .ok (.int n)
  | .float x => if x.isFinite then .ok (.float x) else .error (.arithmetic (.notFinite x))

end Scalar

/-- The number that a value is; `place` names who needs it. -/
def number (place : String) (v : Value) : Except Error Scalar :=
  match Scalar.ofValue? v with
  | some s => .ok s
  | none => .error (.type (.notNumber place v.typeName))

/-- The signed word that a value is; whole binary numbers in range count. -/
def integer (place : String) (v : Value) : Except Error Int := do
  match ← number place v with
  | .int n => return n
  | .float x =>
    match x.trunc? with
    | some n =>
      if x.isWhole && x.magnitudeBelow Word.half then return n
      else throw (.type (.notInteger place x))
    | none => throw (.type (.notInteger place x))

/-- The element of a target at a position.  A position outside a list or text, and a name that a
map does not have, give null. -/
def elementAt (target position : Value) : Except Error Value :=
  match target, position with
  | .arr items, _ => do
    let i ← integer "list index" position
    return if i < 0 then .null else .ofOption items[i.toNat]?
  | .obj entries, .str name => return .ofOption (NameMap.get? entries name)
  | .str s, _ => do
    let i ← integer "string index" position
    return if i < 0 then .null
      else .ofOption ((s.toList[i.toNat]?).map fun c => .str (String.singleton c))
  | _, _ => throw (.type (.notIndexable target.typeName position.typeName))

/-- The entry of a map under a name, null if there is none. -/
def fieldOf (target : Value) (field : String) : Except Error Value :=
  match target with
  | .obj entries => .ok (.ofOption (NameMap.get? entries field))
  | other => .error (.type (.noField field other.typeName))

/-- A whole number as a value if it fits a word, and otherwise the fault. -/
def wordOr (fault : ArithmeticFault) (n : Int) : Except Error Value :=
  if Word.holds n then .ok (.int n) else .error (.arithmetic fault)

/-- An operator before its operand. -/
def applyUnary (op : UnaryOp) (v : Value) : Except Error Value :=
  match op with
  | .not => .ok (.bool !v.truthy)
  | .neg => do
    match ← number "'-'" v with
    | .int n => wordOr .overflow (-n)
    | .float x => Scalar.toValue (.float x.neg)
  | .bitNot => do
    let n ← integer "'~'" v
    return .int (-n - 1)

/-- The text that joining with a text uses: texts as they are, other values in compact form. -/
def joinText : Value → String
  | .str s => s
  | v => v.text

/-- Equality in expressions: numbers by value whatever their form, other values as data. -/
def equal (a b : Value) : Bool :=
  match Scalar.ofValue? a, Scalar.ofValue? b with
  | some (.int m), some (.int n) => m == n
  | some x, some y => x.toBinary64.numEq y.toBinary64
  | _, _ => a.same b

/-- The order of two texts or two numbers; `place` names who compares. -/
def order (place : String) (a b : Value) : Except Error Ordering :=
  match a, b with
  | .str s, .str t => .ok (compare s t)
  | _, _ => do
    let x ← number place a
    let y ← number place b
    match x, y with
    | .int m, .int n => return compare m n
    | _, _ =>
      match x.toBinary64.compare? y.toBinary64 with
      | some ordering => return ordering
      | none => throw (.arithmetic .unordered)

/-- The arithmetic operators. -/
inductive Arithmetic where
  | add | sub | mul | div | rem
deriving DecidableEq, Repr

/-- The operator that the arithmetic one is written as. -/
def Arithmetic.op : Arithmetic → BinaryOp
  | .add => .add
  | .sub => .sub
  | .mul => .mul
  | .div => .div
  | .rem => .rem

/-- Arithmetic on words.  A quotient stays whole when the division leaves no remainder.  The one
quotient of words that is whole and no word breaks the evaluation off; the remainder of the same
division counts as an overflow although it is zero. -/
def Arithmetic.onWords (op : Arithmetic) (m n : Int) : Except Error Value :=
  let outside := ArithmeticFault.overflowIn op.op.symbol
  match op with
  | .add => wordOr outside (m + n)
  | .sub => wordOr outside (m - n)
  | .mul => wordOr outside (m * n)
  | .div =>
    if n = 0 then .error (.arithmetic .divisionByZero)
    else if !Word.holds (m.tdiv n) then .error .breakdown
    else if m.tmod n = 0 then .ok (.int (m.tdiv n))
    else Scalar.toValue (.float ((Binary64.ofInt m).div (.ofInt n)))
  | .rem =>
    if n = 0 then .error (.arithmetic .divisionByZero)
    else if !Word.holds (m.tdiv n) then .error (.arithmetic outside)
    else .ok (.int (m.tmod n))

/-- Arithmetic on binary numbers. -/
def Arithmetic.onBinary (op : Arithmetic) (x y : Binary64) : Except Error Value :=
  match op with
  | .add => Scalar.toValue (.float (x.add y))
  | .sub => Scalar.toValue (.float (x.sub y))
  | .mul => Scalar.toValue (.float (x.mul y))
  | .div =>
    if y.isZero then .error (.arithmetic .divisionByZero) else Scalar.toValue (.float (x.div y))
  | .rem =>
    if y.isZero then .error (.arithmetic .divisionByZero) else Scalar.toValue (.float (x.rem y))

/-- Arithmetic on values. -/
def Arithmetic.apply (op : Arithmetic) (a b : Value) : Except Error Value := do
  let x ← number op.op.symbol a
  let y ← number op.op.symbol b
  match x, y with
  | .int m, .int n => op.onWords m n
  | _, _ => op.onBinary x.toBinary64 y.toBinary64

/-- The operators on the bits of words. -/
inductive Bitwise where
  | and | or | xor | shl | shr
deriving DecidableEq, Repr

/-- The operator that the one on bits is written as. -/
def Bitwise.op : Bitwise → BinaryOp
  | .and => .bitAnd
  | .or => .bitOr
  | .xor => .bitXor
  | .shl => .shl
  | .shr => .shr

/-- The operator on the two's complement words of `m` and `n`.  Shifts take distances below 64;
bits shifted out on the left are lost and the sign fills in on the right. -/
def Bitwise.onWords (op : Bitwise) (m n : Int) : Except Error Value :=
  let x := BitVec.ofInt 64 m
  let y := BitVec.ofInt 64 n
  let distanceOk := 0 ≤ n ∧ n < 64
  match op with
  | .and => .ok (.int (x &&& y).toInt)
  | .or => .ok (.int (x ||| y).toInt)
  | .xor => .ok (.int (x ^^^ y).toInt)
  | .shl =>
    if distanceOk then .ok (.int (x <<< n.toNat).toInt)
    else .error (.arithmetic (.shiftRange n))
  | .shr =>
    if distanceOk then .ok (.int (x.sshiftRight n.toNat).toInt)
    else .error (.arithmetic (.shiftRange n))

/-- The operator on values, which have to be words. -/
def Bitwise.apply (op : Bitwise) (a b : Value) : Except Error Value := do
  let m ← integer op.op.symbol a
  let n ← integer op.op.symbol b
  op.onWords m n

/-- Joins two lists or texts, or adds two numbers.  A text beside another value is joined with the
text of that value. -/
def plus (a b : Value) : Except Error Value :=
  match a, b with
  | .arr as, .arr bs => .ok (.arr (as ++ bs))
  | .str s, b => .ok (.str (s ++ joinText b))
  | a, .str t => .ok (.str (joinText a ++ t))
  | a, b => Arithmetic.add.apply a b

/-- An operator between its operands, both evaluated. -/
def applyBinary (op : BinaryOp) (a b : Value) : Except Error Value :=
  match op with
  | .or => .ok (.bool (a.truthy || b.truthy))
  | .and => .ok (.bool (a.truthy && b.truthy))
  | .eq => .ok (.bool (equal a b))
  | .ne => .ok (.bool !equal a b)
  | .lt => (order op.symbol a b).map fun o => .bool (o == .lt)
  | .le => (order op.symbol a b).map fun o => .bool (o != .gt)
  | .gt => (order op.symbol a b).map fun o => .bool (o == .gt)
  | .ge => (order op.symbol a b).map fun o => .bool (o != .lt)
  | .bitOr => Bitwise.or.apply a b
  | .bitXor => Bitwise.xor.apply a b
  | .bitAnd => Bitwise.and.apply a b
  | .shl => Bitwise.shl.apply a b
  | .shr => Bitwise.shr.apply a b
  | .add => plus a b
  | .sub => Arithmetic.sub.apply a b
  | .mul => Arithmetic.mul.apply a b
  | .div => Arithmetic.div.apply a b
  | .rem => Arithmetic.rem.apply a b

end PanelBus.Expr
