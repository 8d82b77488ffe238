import PanelBus.Json.Printer
/-!
# Records

A record is an object whose members are known by their names, or the list of its members in the
order in which they are declared, the last ones of which may be missing.  Unknown names are
ignored.  Every member is read whatever the others are like, and of several faults the one is
reported whose member comes first: in an object by its name, in a list by its position.
-/

namespace PanelBus.Config

open Json (Value Number Fields)

/-- Why a value is no configuration. -/
inductive ReadError where
  /-- A value has the wrong type or range, or a required member is missing. -/
  | shape
  /-- A number is no octet. -/
  | octetRange (n : Number)
  /-- A text is no numeral of an octet. -/
  | octetText (s : String)
  /-- An octet is neither a number nor a text. -/
  | octetType
deriving DecidableEq, Repr

/-- The text of a reading error, where there is one. -/
def ReadError.message? : ReadError → Option String
  | .shape => none
  | .octetRange n => some ("byte out of range: " ++ n.text)
  | .octetText s => some ("invalid byte string: " ++ s)
  | .octetType => some "expected number or string"

/-- The result of reading. -/
abbrev Result := Except ReadError

/-- What is made from members of a record: a value, or the faults of members by their names. -/
inductive Checked (α : Type) where
  /-- No member is faulty. -/
  | ok (a : α)
  /-- These members are faulty. -/
  | faulty (faults : List (String × ReadError))

variable {α β : Type}

namespace Checked

/-- Applies a value to a value; the faults of both count. -/
def apply : Checked (α → β) → Checked α → Checked β
  | .ok f, .ok a => .ok (f a)
  | .ok _, .faulty faults => .faulty faults
  | .faulty faults, .ok _ => .faulty faults
  | .faulty faults, .faulty more => .faulty (faults ++ more)

instance : Applicative Checked where
  pure := .ok
  seq f a := f.apply (a ())

@[simp] theorem map_ok (f : α → β) (a : α) : f <$> Checked.ok a = .ok (f a) := rfl

@[simp] theorem ok_seq_ok (f : α → β) (a : α) : Checked.ok f <*> .ok a = .ok (f a) := rfl

/-- What a member gives. -/
def ofResult (key : String) : Result α → Checked α
  | .ok a => .ok a
  | .error e => .faulty [(key, e)]

/-- The value, or the fault of the first faulty member among `names`.  When all of these are in
order, a faulty member is one that is missing. -/
def resolve (names : List String) : Checked α → Result α
  | .ok a => .ok a
  | .faulty faults => .error ((names.findSome? fun name => faults.lookup name).getD .shape)

@[simp] theorem resolve_eq_ok_iff {names : List String} {c : Checked α} {a : α} :
    c.resolve names = .ok a ↔ c = .ok a := by
  cases c <;> simp [resolve]

end Checked

/-- A value that may be null. -/
def readOption (read : Value → Result α) (v : Value) : Result (Option α) :=
  match v with
  | .null => .ok none
  | v => (read v).map some

/-- A member, or its default if it is missing. -/
def member (fields : Fields) (key : String) (default : α) (read : Value → Result α) :
    Checked α :=
  match fields.get? key with
  | some v => .ofResult key (read v)
  | none => .ok default

/-- A member that may be missing or null. -/
def optional (fields : Fields) (key : String) (read : Value → Result α) : Checked (Option α) :=
  member fields key none (readOption read)

/-- A member that may not be missing. -/
def required (fields : Fields) (key : String) (read : Value → Result α) : Checked α :=
  match fields.get? key with
  | some v => .ofResult key (read v)
  | none => .faulty [(key, .shape)]

/-- A record whose members are declared in the order of `keys`, made by `build`. -/
def record (keys : List String) (build : Fields → Checked α) : Value → Result α
  | .obj entries => (build entries).resolve (NameMap.names entries)
  | .arr items => do
    let a ← (build (keys.zip items)).resolve keys
    if items.length ≤ keys.length then return a else throw .shape
  | _ => .error .shape

end PanelBus.Config
