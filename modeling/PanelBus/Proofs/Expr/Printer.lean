import PanelBus.Expr.Basic
import PanelBus.Json.Printer
/-!
# Writing expressions

An expression is written with no more parentheses than its grouping needs.  A place in an expression
takes what binds at least as strongly as the place asks for, and anything else in parentheses.
-/

namespace PanelBus

open Json (Value)

/-- How strongly the operator binds.  All operators group to the left. -/
def BinaryOp.strength : BinaryOp → Nat
  | .or => 1
  | .and => 2
  | .bitOr => 3
  | .bitXor => 4
  | .bitAnd => 5
  | .eq | .ne => 6
  | .lt | .le | .gt | .ge => 7
  | .shl | .shr => 8
  | .add | .sub => 9
  | .mul | .div | .rem => 10

theorem BinaryOp.strength_range (op : BinaryOp) : 1 ≤ op.strength ∧ op.strength ≤ 10 := by
  cases op <;> decide

namespace Expr

/-- How strongly the expression binds: nothing binds less than a conditional, and nothing more than
an expression without operators. -/
def strength : Expr → Nat
  | .cond .. => 0
  | .binary op .. => op.strength
  | .unary .. => 11
  | _ => 12

/-- The character inside a quoted text. -/
def escaped (c : Char) : List Char := if c = '\\' ∨ c = '\x27' then ['\\', c] else [c]

/-- A constant.  Texts stand in single quotes. -/
def constant : Value → List Char
  | .str s => '\x27' :: (s.toList.flatMap escaped ++ ['\x27'])
  | value => value.text.toList

/-- The text of an expression in a place that asks for that strength. -/
def placed (place : Nat) (e : Expr) (text : List Char) : List Char :=
  if e.strength < place then '(' :: (text ++ [')']) else text

mutual

/-- The text of an expression. -/
def write : Expr → List Char
  | .lit value => constant value
  | .list items => '[' :: (writeItems items ++ [']'])
  | .ident name => name.toList
  | .index target position => placed 12 target target.write ++ '[' :: (position.write ++ [']'])
  | .member target field => placed 12 target target.write ++ '.' :: field.toList
  | .call name args => name.toList ++ '(' :: (writeItems args ++ [')'])
  | .unary op operand => op.symbol.toList ++ placed 11 operand operand.write
  | .binary op lhs rhs =>
    placed op.strength lhs lhs.write ++ ' ' :: (op.symbol.toList ++ ' ' ::
      placed (op.strength + 1) rhs rhs.write)
  | .cond test yes no =>
    placed 1 test test.write ++ ' ' :: '?' :: ' ' :: (yes.write ++ ' ' :: ':' :: ' ' :: no.write)

/-- The texts of expressions with commas between them. -/
def writeItems : List Expr → List Char
  | [] => []
  | item :: rest => item.write ++ writeMore rest

/-- The texts of expressions with a comma before each. -/
def writeMore : List Expr → List Char
  | [] => []
  | item :: rest => ',' :: ' ' :: (item.write ++ writeMore rest)

end

/-- The text of an expression. -/
def print (e : Expr) : String := String.ofList e.write

end Expr

end PanelBus
