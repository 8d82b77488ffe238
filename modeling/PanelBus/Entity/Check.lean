import PanelBus.Entity.Basic
import PanelBus.Word
/-!
# Checking entities

An entity is checked once, before its device exists: its texts and numbers by `validate`, its
expressions by reading each of them.  A device that passed needs no further check while it runs.
-/

namespace PanelBus

open Json (Value)

/-- What is wrong with an entity. -/
inductive EntityFault where
  | blankId
  | blankLambda (field : String)
  /-- A command has neither a template nor an expression. -/
  | emptyCommand (name : String)
  /-- The number of a command takes no octet or more than four. -/
  | commandLength (name : String) (length : Nat)
  /-- The number of a command does not fit its template. -/
  | commandOffset (name : String) (offset size : Nat)
  /-- A number field takes no octet or more than eight. -/
  | numberLength (key : String) (length : Nat)
  | stateLambda (field : String) (error : Expr.Error)
  | guardSource (error : Expr.Error)
  | commandLambda (error : Expr.Error)
  | duplicateId
deriving DecidableEq, Repr

/-- The text of a fault. -/
def EntityFault.message : EntityFault → String
  | .blankId => "id must not be empty"
  | .blankLambda field => "state lambda '" ++ field ++ "' is empty"
  | .emptyCommand name => "command '" ++ name ++ "' has neither data nor lambda"
  | .commandLength name length =>
    "command '" ++ name ++ "' value length " ++ toString length ++ " is out of range 1..=4"
  | .commandOffset name offset size =>
    "command '" ++ name ++ "' value_offset " ++ toString offset ++ " exceeds template length " ++
      toString size
  | .numberLength key length =>
    "'" ++ key ++ "' length " ++ toString length ++ " is out of range 1..=8"
  | .stateLambda field error => "state lambda '" ++ field ++ "': " ++ error.message
  | .guardSource error => "guard: " ++ error.message
  | .commandLambda error => "command lambda: " ++ error.message
  | .duplicateId => "duplicate device id"

/-- An entity that is not usable, by its id. -/
structure EntityError where
  id : String
  fault : EntityFault
deriving DecidableEq, Repr

/-- The text of the error. -/
def EntityError.message (error : EntityError) : String :=
  "Invalid device config '" ++ error.id ++ "': " ++ error.fault.message

/-- Whether a text has no character but blanks. -/
def isBlankText (s : String) : Bool := s.toList.all Text.isBlank

/-- What is wrong with a command of that name.  The end of the place for its number is a word, and a
sum too large for one wraps. -/
def Command.fault? (name : String) (command : Command) : Option EntityFault :=
  if command.isEmpty then some (.emptyCommand name)
  else if command.length < 1 ∨ 4 < command.length then
    some (.commandLength name command.length)
  else
    match command.valueOffset? with
    | some offset =>
      if command.data.length < (offset + command.length) % Word.count then
        some (.commandOffset name offset command.data.length)
      else none
    | none => none

mutual

/-- The sources of the guards in a pattern, its own one first, then those of its exceptions from
the last to the first. -/
def Pattern.guards : Pattern → List String
  | ⟨_, _, _, _, guard?, except⟩ => guard?.toList ++ guardsBackward except

/-- The sources of the guards in patterns, from the last pattern to the first. -/
def Pattern.guardsBackward : List Pattern → List String
  | [] => []
  | pattern :: rest => guardsBackward rest ++ guards pattern

end

namespace Entity

/-- What is wrong with the texts and numbers of the entity, the first fault found. -/
def validate (entity : Entity) : Except EntityError Unit :=
  let blank := if isBlankText entity.common.id then [EntityFault.blankId] else []
  let lambdas := entity.common.stateLambdas.filterMap fun (field, source) =>
    if isBlankText source then some (.blankLambda field) else none
  let commands := entity.commands.filterMap fun (name, command) => command.fault? name
  let numbers := entity.numbers.filterMap fun (key, number) =>
    if number.length < 1 ∨ 8 < number.length then some (.numberLength key number.length) else none
  match (blank ++ lambdas ++ commands ++ numbers).head? with
  | some fault => .error ⟨entity.common.id, fault⟩
  | none => .ok ()

/-- What passes has commands without fault and numbers of one to eight octets. -/
theorem faultless_of_validate {entity : Entity} (h : entity.validate = .ok ()) :
    (∀ entry ∈ entity.commands, entry.2.fault? entry.1 = none) ∧
      ∀ entry ∈ entity.numbers, 1 ≤ entry.2.length ∧ entry.2.length ≤ 8 := by
  unfold validate at h
  dsimp only at h
  split at h
  · cases h
  · next hnone =>
    have hempty := List.head?_eq_none_iff.1 hnone
    simp only [List.append_eq_nil_iff, List.filterMap_eq_nil_iff] at hempty
    refine ⟨hempty.1.2, fun entry hmem => ?_⟩
    have hentry := hempty.2 entry hmem
    split at hentry
    · cases hentry
    · omega

/-- The patterns of the entity: those of its kind and the one that every frame has to match. -/
def patterns (entity : Entity) : List Pattern :=
  entity.features.patterns.filterMap id ++ entity.common.state?.toList

/-- The sources of the entity in the order in which they are read, each with the fault that it is
if it cannot be read. -/
def sources (entity : Entity) : List (String × (Expr.Error → EntityFault)) :=
  (entity.common.stateLambdas.map fun (field, source) => (source, EntityFault.stateLambda field)) ++
  ((Pattern.guardsBackward entity.patterns).map fun source => (source, EntityFault.guardSource)) ++
  (entity.commands.filterMap fun (_, command) =>
    command.lambda?.map fun source => (source, EntityFault.commandLambda))

/-- Reads sources in order, up to the first that cannot be read. -/
def readSources :
    List (String × (Expr.Error → EntityFault)) → Expr.SessionM (Except EntityFault Unit)
  | [] => return .ok ()
  | (source, fault) :: rest => do
    match ← Expr.compile source with
    | .ok _ => readSources rest
    | .error error => return .error (fault error)

/-- Checks the entity and reads all its sources. -/
def check (entity : Entity) : Expr.SessionM (Except EntityError Unit) := do
  match entity.validate with
  | .error error => return .error error
  | .ok () =>
    match ← readSources entity.sources with
    | .ok () => return .ok ()
    | .error fault => return .error ⟨entity.common.id, fault⟩

end Entity

end PanelBus
