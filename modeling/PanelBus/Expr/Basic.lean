import PanelBus.Json.Value
/-!
# Expressions

Guards, computed states and computed commands are written in a small expression language.  This
module holds its syntax trees.
-/

namespace PanelBus

/-- An operator before its operand. -/
inductive UnaryOp where
  | not
  | neg
  | bitNot
deriving DecidableEq, Repr

/-- An operator between its operands. -/
inductive BinaryOp where
  | or | and
  | bitOr | bitXor | bitAnd
  | eq | ne
  | lt | le | gt | ge
  | shl | shr
  | add | sub
  | mul | div | rem
deriving DecidableEq, Repr

/-- An expression. -/
inductive Expr where
  | lit (value : Json.Value)
  | list (items : List Expr)
  | ident (name : String)
  /-- An element of a list or text, or an entry of a map, chosen by a value. -/
  | index (target position : Expr)
  /-- An entry of a map, chosen by name. -/
  | member (target : Expr) (field : String)
  | call (name : String) (args : List Expr)
  | unary (op : UnaryOp) (operand : Expr)
  | binary (op : BinaryOp) (lhs rhs : Expr)
  /-- The second expression if the first is true, and the third otherwise. -/
  | cond (test yes no : Expr)

/-- The written form of the operator. -/
def UnaryOp.symbol : UnaryOp → String
  | .not => "!"
  | .neg => "-"
  | .bitNot => "~"

/-- The written form of the operator. -/
def BinaryOp.symbol : BinaryOp → String
  | .or => "||"
  | .and => "&&"
  | .bitOr => "|"
  | .bitXor => "^"
  | .bitAnd => "&"
  | .eq => "=="
  | .ne => "!="
  | .lt => "<"
  | .le => "<="
  | .gt => ">"
  | .ge => ">="
  | .shl => "<<"
  | .shr => ">>"
  | .add => "+"
  | .sub => "-"
  | .mul => "*"
  | .div => "/"
  | .rem => "%"

end PanelBus
