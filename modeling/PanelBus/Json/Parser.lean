import PanelBus.Json.Value
import PanelBus.Binary64.Decimal
/-!
# Reading JSON text

`Value.ofText?` reads one JSON value.  A numeral without point and exponent is a whole number if it
lies in the range of those, every other numeral is the nearest binary number.  Of several values
for one name in a map the last one counts.
-/

namespace PanelBus.Json.Reader

/-- Drops the blanks that JSON allows between tokens. -/
def skipBlanks (s : List Char) : List Char :=
  s.dropWhile fun c => c == ' ' || c == '\t' || c == '\n' || c == '\r'

/-- The rest after `word`, if the text begins with it. -/
def skipWord? (word : String) (s : List Char) : Option (List Char) :=
  if word.toList.isPrefixOf s then some (s.drop word.length) else none

/-- Four hexadecimal digits. -/
def hexUnit? : List Char → Option (Nat × List Char)
  | a :: b :: c :: d :: rest => (Text.ofDigits? 16 [a, b, c, d]).map fun n => (n, rest)
  | _ => none

/-- A character given by its code units, the second one for the low half of a pair. -/
def codeUnits? (s : List Char) : Option (Char × List Char) := do
  let (high, rest) ← hexUnit? s
  if 0xD800 ≤ high ∧ high ≤ 0xDBFF then
    let rest ← skipWord? "\\u" rest
    let (low, rest) ← hexUnit? rest
    if 0xDC00 ≤ low ∧ low ≤ 0xDFFF then
      some (Char.ofNat (0x10000 + (high - 0xD800) * 0x400 + (low - 0xDC00)), rest)
    else none
  else if 0xDC00 ≤ high ∧ high ≤ 0xDFFF then none
  else some (Char.ofNat high, rest)

/-- The characters up to the closing quote, `acc` holding those already read in reverse. -/
def quoted? : Nat → List Char → List Char → Option (String × List Char)
  | 0, _, _ => none
  | _ + 1, _, [] => none
  | fuel + 1, acc, '\\' :: rest =>
    match rest with
    | 'n' :: rest => quoted? fuel ('\n' :: acc) rest
    | 't' :: rest => quoted? fuel ('\t' :: acc) rest
    | 'r' :: rest => quoted? fuel ('\r' :: acc) rest
    | 'b' :: rest => quoted? fuel ('\x08' :: acc) rest
    | 'f' :: rest => quoted? fuel ('\x0c' :: acc) rest
    | 'u' :: rest => do
      let (c, rest) ← codeUnits? rest
      quoted? fuel (c :: acc) rest
    | c :: rest =>
      if c == '"' || c == '\\' || c == '/' then quoted? fuel (c :: acc) rest else none
    | [] => none
  | fuel + 1, acc, c :: rest =>
    if c == '"' then some (String.ofList acc.reverse, rest)
    else if c.toNat < 0x20 then none
    else quoted? fuel (c :: acc) rest

/-- A numeral. -/
def numeral? (s : List Char) : Option (Number × List Char) := do
  let (negative, body) := match s with
    | '-' :: r => (true, r)
    | r => (false, r)
  let token := body.takeWhile fun c =>
    Text.isDigit c || c == '.' || c == 'e' || c == 'E' || c == '+' || c == '-'
  let rest := body.drop token.length
  let whole := token.takeWhile Text.isDigit
  if whole.isEmpty || (whole.length > 1 && whole.head? == some '0') then none
  else if whole.length = token.length then
    let n := Text.ofDecimalDigits whole
    if negative && n == 0 then some (.float (.finite true 0 Binary64.minExponent), rest)
    else
      let z : Int := if negative then -n else n
      if Word.least ≤ z ∧ z < (Word.count : Int) then some (.int z, rest)
      else some (.float (.ofDecimal negative n 0), rest)
  else
    let (digits, exp) ← Binary64.readScaled? token
    let x := Binary64.ofDecimal negative digits exp
    if x.isFinite then some (.float x, rest) else none

mutual

/-- A value, after any blanks.  The fuel bounds the nesting and the number of members together. -/
def value? : Nat → List Char → Option (Value × List Char)
  | 0, _ => none
  | fuel + 1, s =>
    match skipBlanks s with
    | '"' :: rest => (quoted? (rest.length + 1) [] rest).map fun (t, rest) => (.str t, rest)
    | '[' :: rest =>
      match skipBlanks rest with
      | ']' :: rest => some (.arr [], rest)
      | rest => (items? fuel rest).map fun (items, rest) => (.arr items, rest)
    | '\x7b' :: rest =>
      match skipBlanks rest with
      | '\x7d' :: rest => some (.obj [], rest)
      | rest => (entries? fuel rest).map fun (entries, rest) => (.ofEntries entries, rest)
    | 't' :: rest => (skipWord? "rue" rest).map fun rest => (.bool true, rest)
    | 'f' :: rest => (skipWord? "alse" rest).map fun rest => (.bool false, rest)
    | 'n' :: rest => (skipWord? "ull" rest).map fun rest => (.null, rest)
    | rest => (numeral? rest).map fun (n, rest) => (.num n, rest)

/-- List items up to the closing bracket. -/
def items? : Nat → List Char → Option (List Value × List Char)
  | 0, _ => none
  | fuel + 1, s => do
    let (v, rest) ← value? fuel s
    match skipBlanks rest with
    | ',' :: rest =>
      let (vs, rest) ← items? fuel rest
      some (v :: vs, rest)
    | ']' :: rest => some ([v], rest)
    | _ => none

/-- Map entries up to the closing brace. -/
def entries? : Nat → List Char → Option (List (String × Value) × List Char)
  | 0, _ => none
  | fuel + 1, s => do
    match skipBlanks s with
    | '"' :: rest =>
      let (k, rest) ← quoted? (rest.length + 1) [] rest
      match skipBlanks rest with
      | ':' :: rest =>
        let (v, rest) ← value? fuel rest
        match skipBlanks rest with
        | ',' :: rest =>
          let (es, rest) ← entries? fuel rest
          some ((k, v) :: es, rest)
        | '\x7d' :: rest => some ([(k, v)], rest)
        | _ => none
      | _ => none
    | _ => none

end

end PanelBus.Json.Reader

namespace PanelBus.Json

/-- The value that the text holds, blanks around it allowed. -/
def Value.ofText? (text : String) : Option Value :=
  let s := text.toList
  match Reader.value? (s.length + 1) s with
  | some (v, rest) => if (Reader.skipBlanks rest).isEmpty then some v else none
  | none => none

end PanelBus.Json
