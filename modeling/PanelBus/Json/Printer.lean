import PanelBus.Json.Value
import PanelBus.Binary64.Decimal
/-!
# Compact JSON text

Values are written without blanks, maps in the order of their entries.
-/

namespace PanelBus.Json

/-- A character inside a quoted text.  Quotes, backslashes and control characters are escaped;
all others stand for themselves. -/
def escapeChar (c : Char) : String :=
  if c == '"' then "\\\""
  else if c == '\\' then "\\\\"
  else if c == '\x08' then "\\b"
  else if c == '\x0c' then "\\f"
  else if c == '\n' then "\\n"
  else if c == '\r' then "\\r"
  else if c == '\t' then "\\t"
  else if c.toNat < 0x20 then
    "\\u00" ++ (if c.toNat < 0x10 then "0" else "") ++ String.ofList (Nat.toDigits 16 c.toNat)
  else String.singleton c

/-- A text between quotes. -/
def quote (s : String) : String :=
  s.foldl (fun acc c => acc ++ escapeChar c) "\"" ++ "\""

/-- The text of a number: digits for whole ones, the data layout for binary ones. -/
def Number.text : Number → String
  | .int n => toString n
  | .float x => x.text

namespace Value

mutual

/-- The compact text of a value. -/
def text : Value → String
  | .null => "null"
  | .bool b => if b then "true" else "false"
  | .num n => n.text
  | .str s => quote s
  | .arr items => "[" ++ itemsText items ++ "]"
  | .obj entries => "\x7b" ++ entriesText entries ++ "\x7d"

/-- The texts of list items with commas between them. -/
def itemsText : List Value → String
  | [] => ""
  | [v] => text v
  | v :: w :: rest => text v ++ "," ++ itemsText (w :: rest)

/-- The texts of map entries with commas between them. -/
def entriesText : List (String × Value) → String
  | [] => ""
  | [(k, v)] => quote k ++ ":" ++ text v
  | (k, v) :: e :: rest => quote k ++ ":" ++ text v ++ "," ++ entriesText (e :: rest)

end

end Value

end PanelBus.Json
