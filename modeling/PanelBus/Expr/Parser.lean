import PanelBus.Expr.Basic
import PanelBus.Expr.Error
import PanelBus.Text.Blank
/-!
# Reading expressions

From loosest to tightest the language has the conditional `? :`, the binary operators in ten
levels, all grouping to the left, the operators before an operand, and the suffixes `[ ]` and `.`.
A source may begin with the word `return` and end with a semicolon.

A rule reads a value off the front of the text.  It fails with the text at which it failed; when
every alternative fails, the failure of the last one counts.
-/

namespace PanelBus.Expr

open Json (Value)

namespace Grammar

/-- A rule gives a value and the text after it, or the text at which it failed. -/
abbrev Rule (α : Type) := List Char → Except (List Char) (α × List Char)

variable {α : Type}

/-! ## Tokens -/

/-- The blanks between tokens. -/
def isSpace (c : Char) : Bool := c == ' ' || c == '\t' || c == '\r' || c == '\n'

/-- The text without blanks at its front. -/
def skipSpaces (s : List Char) : List Char := s.dropWhile isSpace

/-- Exactly these characters. -/
def token (word : String) : Rule Unit := fun s =>
  if word.toList.isPrefixOf s then .ok ((), s.drop word.length) else .error s

/-- A rule with blanks allowed around it. -/
def spaced (rule : Rule α) : Rule α := fun s => do
  let (a, rest) ← rule (skipSpaces s)
  return (a, skipSpaces rest)

/-- These characters with blanks allowed around them. -/
def symbol (word : String) : Rule Unit := spaced (token word)

/-- The first rule, or the second one where the first fails. -/
def either (first second : Rule α) : Rule α := fun s =>
  match first s with
  | .ok result => .ok result
  | .error _ => second s

/-- The character, unless the same character follows it. -/
def lone (c : Char) : Rule Unit := fun s =>
  match s with
  | d :: rest => if d = c ∧ rest.head? ≠ some c then .ok ((), rest) else .error s
  | [] => .error s

/-- Whether a name may begin with the character. -/
def isNameStart (c : Char) : Bool := c.isAlpha || c == '_'

/-- Whether the character may stand inside a name. -/
def isNamePart (c : Char) : Bool := c.isAlphanum || c == '_'

/-- A name. -/
def name : Rule String := fun s =>
  match s with
  | c :: rest =>
    if isNameStart c then
      .ok (String.ofList (c :: rest.takeWhile isNamePart), rest.dropWhile isNamePart)
    else .error s
  | [] => .error s

/-! ## Constants -/

/-- A whole number in hexadecimal, below `2 ^ 63`. -/
def hexNumber : Rule Value := fun s => do
  let (_, rest) ← either (token "0x") (token "0X") s
  let digits := rest.takeWhile Text.isHexDigit
  match Text.ofDigits? 16 digits with
  | some n =>
    if digits.isEmpty || Word.half ≤ n then .error s
    else .ok (.nat n, rest.dropWhile Text.isHexDigit)
  | none => .error s

/-- A whole number below `2 ^ 63`, or a finite number with a fraction. -/
def decimalNumber : Rule Value := fun s =>
  let whole := s.takeWhile Text.isDigit
  let rest := s.dropWhile Text.isDigit
  let fraction :=
    match rest with
    | '.' :: r => r.takeWhile Text.isDigit
    | _ => []
  if whole.isEmpty then .error s
  else if fraction.isEmpty then
    let n := Text.ofDecimalDigits whole
    if n < Word.half then .ok (.nat n, rest) else .error s
  else
    let digits := Text.ofDecimalDigits (whole ++ fraction)
    let x := Binary64.ofDecimal false digits (-(fraction.length : Int))
    if x.isFinite then .ok (.float x, rest.drop (fraction.length + 1)) else .error s

/-- The characters up to the closing quote, `acc` holding those already read in reverse.  After a
backslash `n` and `t` stand for a line end and a tab, any other character for itself. -/
def quotedFrom (quote : Char) (acc : List Char) : List Char → Option (String × List Char)
  | [] => none
  | c :: rest =>
    if c = quote then some (String.ofList acc.reverse, rest)
    else if c = '\\' then
      match rest with
      | [] => none
      | e :: rest =>
        let plain := if e = 'n' then '\n' else if e = 't' then '\t' else e
        quotedFrom quote (plain :: acc) rest
    else quotedFrom quote (c :: acc) rest

/-- A text in single or double quotes. -/
def quoted : Rule Value := fun s =>
  match s with
  | c :: rest =>
    if c = '"' ∨ c = '\x27' then
      match quotedFrom c [] rest with
      | some (text, rest) => .ok (.str text, rest)
      | none => .error s
    else .error s
  | [] => .error s

/-! ## Operators -/

/-- The operators of each level, from the loosest level to the tightest. -/
def levels : List (Rule BinaryOp) :=
  let op (o : BinaryOp) : Rule BinaryOp := fun s => (token o.symbol s).map fun (_, r) => (o, r)
  let single (c : Char) (o : BinaryOp) : Rule BinaryOp := fun s =>
    (lone c s).map fun (_, r) => (o, r)
  [spaced (op .or),
   spaced (op .and),
   spaced (single '|' .bitOr),
   spaced (op .bitXor),
   spaced (single '&' .bitAnd),
   spaced (either (op .eq) (op .ne)),
   spaced (either (op .le) (either (op .ge) (either (single '<' .lt) (single '>' .gt)))),
   spaced (either (op .shl) (op .shr)),
   spaced (either (op .add) (op .sub)),
   spaced (either (op .mul) (either (op .div) (op .rem)))]

/-- Operators and right operands after `lhs`, grouped to the left, as far as they go.  Each round
reads an operator, so the length of the text bounds the rounds. -/
def operations (operand : Rule Expr) (operator : Rule BinaryOp) : Nat → Expr → Rule Expr
  | 0, lhs, s => .ok (lhs, s)
  | rounds + 1, lhs, s =>
    match operator s with
    | .error _ => .ok (lhs, s)
    | .ok (op, rest) => do
      let (rhs, rest) ← operand rest
      operations operand operator rounds (.binary op lhs rhs) rest

/-- Operands of the tightest level joined by the operators of all levels. -/
def binaryFrom (operand : Rule Expr) : List (Rule BinaryOp) → Rule Expr
  | [] => operand
  | operator :: tighter => fun s => do
    let (lhs, rest) ← binaryFrom operand tighter s
    operations (binaryFrom operand tighter) operator rest.length lhs rest

/-! ## Expressions

The rules below take the rule for nested expressions as an argument. -/

/-- Expressions after a first one, each after a comma, as far as they go. -/
def moreItems (nested : Rule Expr) : Nat → List Char → List Expr × List Char
  | 0, s => ([], s)
  | rounds + 1, s =>
    match symbol "," s with
    | .error _ => ([], s)
    | .ok (_, rest) =>
      match nested rest with
      | .error _ => ([], s)
      | .ok (item, rest) =>
        let (items, rest) := moreItems nested rounds rest
        (item :: items, rest)

/-- Expressions with commas between them, possibly none. -/
def items (nested : Rule Expr) (s : List Char) : List Expr × List Char :=
  match nested s with
  | .error _ => ([], s)
  | .ok (item, rest) =>
    let (more, rest) := moreItems nested rest.length rest
    (item :: more, rest)

/-- A list in brackets. -/
def listLiteral (nested : Rule Expr) : Rule Expr := fun s => do
  let (_, rest) ← token "[" s
  let (members, rest) := items nested rest
  let (_, rest) ← symbol "]" rest
  return (.list members, rest)

/-- An expression in parentheses. -/
def parenthesised (nested : Rule Expr) : Rule Expr := fun s => do
  let (_, rest) ← token "(" s
  let (e, rest) ← nested rest
  let (_, rest) ← symbol ")" rest
  return (e, rest)

/-- Arguments in parentheses. -/
def arguments (nested : Rule Expr) : Rule (List Expr) := fun s => do
  let (_, rest) ← symbol "(" s
  let (args, rest) := items nested rest
  let (_, rest) ← symbol ")" rest
  return (args, rest)

/-- A named constant, a function applied to arguments, or a variable. -/
def named (nested : Rule Expr) : Rule Expr := fun s => do
  let (word, rest) ← name s
  if word = "true" then return (.lit (.bool true), rest)
  else if word = "false" then return (.lit (.bool false), rest)
  else if word = "null" then return (.lit .null, rest)
  else
    match arguments nested rest with
    | .ok (args, rest) => return (.call word args, rest)
    | .error _ => return (.ident word, rest)

/-- A constant as an expression. -/
def literal (rule : Rule Value) : Rule Expr := fun s =>
  (rule s).map fun (v, rest) => (.lit v, rest)

/-- An expression without operators and suffixes. -/
def primary (nested : Rule Expr) : Rule Expr :=
  spaced
    (either (literal hexNumber)
      (either (literal decimalNumber)
        (either (literal quoted)
          (either (listLiteral nested)
            (either (parenthesised nested) (named nested))))))

/-- An index in brackets behind `target`. -/
def indexSuffix (nested : Rule Expr) (target : Expr) : Rule Expr := fun s => do
  let (_, rest) ← symbol "[" s
  let (position, rest) ← nested rest
  let (_, rest) ← symbol "]" rest
  return (.index target position, rest)

/-- A field name after a point behind `target`. -/
def memberSuffix (target : Expr) : Rule Expr := fun s => do
  let (_, rest) ← symbol "." s
  let (field, rest) ← name rest
  return (.member target field, rest)

/-- Suffixes behind `target`, as far as they go.  Each one is at least one character long. -/
def suffixes (nested : Rule Expr) : Nat → Expr → List Char → Expr × List Char
  | 0, target, s => (target, s)
  | rounds + 1, target, s =>
    match either (indexSuffix nested target) (memberSuffix target) s with
    | .error _ => (target, s)
    | .ok (e, rest) => suffixes nested rounds e rest

/-- A primary expression with its suffixes. -/
def suffixed (nested : Rule Expr) : Rule Expr := fun s => do
  let (e, rest) ← primary nested s
  return suffixes nested rest.length e rest

/-- An operator before the expression that `operand` reads. -/
def applied (op : UnaryOp) (operand : Rule Expr) : Rule Expr := fun s => do
  let (_, rest) ← symbol op.symbol s
  let (e, rest) ← operand rest
  return (.unary op e, rest)

/-- Up to `rounds` operators before a suffixed expression. -/
def unaryFrom (nested : Rule Expr) : Nat → Rule Expr
  | 0 => suffixed nested
  | rounds + 1 =>
    either (applied .not (unaryFrom nested rounds))
      (either (applied .neg (unaryFrom nested rounds))
        (either (applied .bitNot (unaryFrom nested rounds)) (suffixed nested)))

/-- A suffixed expression with the operators before it. -/
def unary (nested : Rule Expr) : Rule Expr := fun s => unaryFrom nested s.length s

/-- The two branches of a conditional. -/
def branches (nested : Rule Expr) : Rule (Expr × Expr) := fun s => do
  let (_, rest) ← symbol "?" s
  let (yes, rest) ← nested rest
  let (_, rest) ← symbol ":" rest
  let (no, rest) ← nested rest
  return ((yes, no), rest)

/-- An expression whose nested expressions are read by `nested`. -/
def conditional (nested : Rule Expr) : Rule Expr := fun s => do
  let (test, rest) ← binaryFrom (unary nested) levels s
  match branches nested rest with
  | .ok ((yes, no), rest) => return (.cond test yes no, rest)
  | .error _ => return (test, rest)

/-- An expression with nesting below `depth`.  Each level of nesting begins with a bracket or an
operator, so a depth above the length of the text bounds nothing. -/
def expression : Nat → Rule Expr
  | 0 => fun s => .error s
  | depth + 1 => conditional (expression depth)

/-- The text after blanks and, if blanks follow it, the word `return`. -/
def skipReturn (s : List Char) : List Char :=
  match token "return" (skipSpaces s) with
  | .ok (_, c :: rest) => if isSpace c then skipSpaces rest else skipSpaces s
  | _ => skipSpaces s

/-- The text after blanks and at most one semicolon among them. -/
def skipEnd (s : List Char) : List Char :=
  match symbol ";" s with
  | .ok (_, rest) => rest
  | .error _ => skipSpaces s

/-- A whole source: the expression, or the text at which reading failed. -/
def program (s : List Char) : Except (List Char) Expr := do
  let (e, rest) ← expression (s.length + 1) (skipReturn s)
  match skipEnd rest with
  | [] => return e
  | rest => throw rest

/-! ## Limits -/

/-- How deep a source nests up to some character. -/
structure Nesting where
  /-- The brackets open, never below zero. -/
  brackets : Nat := 0
  /-- The question marks so far. -/
  conditionals : Nat := 0
  /-- The operators before an operand since the last other character, blanks left out. -/
  leading : Nat := 0

/-- The nesting after one more character. -/
def Nesting.step (nesting : Nesting) (c : Char) : Nesting where
  brackets :=
    if c = '(' ∨ c = '[' then nesting.brackets + 1
    else if c = ')' ∨ c = ']' then nesting.brackets - 1
    else nesting.brackets
  conditionals := if c = '?' then nesting.conditionals + 1 else nesting.conditionals
  leading :=
    if c = '!' ∨ c = '~' ∨ c = '-' then nesting.leading + 1
    else if Text.isBlank c then nesting.leading
    else 0

/-- Whether one of the three counts is above the limit. -/
def Nesting.exceeds (nesting : Nesting) : Bool :=
  maxNesting < nesting.brackets || maxNesting < nesting.conditionals ||
    maxNesting < nesting.leading

/-- Whether the nesting exceeds the limit after some character of the text. -/
def tooDeep (nesting : Nesting) : List Char → Bool
  | [] => false
  | c :: rest => (nesting.step c).exceeds || tooDeep (nesting.step c) rest

end Grammar

/-- The number of octets of the text in UTF-8. -/
def utf8Size (s : List Char) : Nat := s.foldl (fun n c => n + c.utf8Size) 0

/-- Reads an expression.  A failure names the octet offset where reading stopped and the first
sixteen characters from there on. -/
def parse (source : String) : Except Error Expr :=
  let s := source.toList
  if maxSourceSize < source.utf8ByteSize then
    .error (.tooComplex (.size source.utf8ByteSize))
  else if Grammar.tooDeep {} s then .error (.tooComplex .nesting)
  else
    match Grammar.program s with
    | .ok e => .ok e
    | .error rest =>
      .error (.parse (source.utf8ByteSize - utf8Size rest) (String.ofList (rest.take 16)))

end PanelBus.Expr
