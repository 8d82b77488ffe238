import PanelBus.Expr.Parser
import PanelBus.Expr.Eval
import PanelBus.Bytes
/-!
# The expression engine

An engine reads each source once and keeps the tree.  Everything that evaluates expressions runs in
a session: the engine together with the host calls that the expressions have made.  A guard that
fails counts as false and a value that fails counts as absent, so failures stay inside.
-/

namespace PanelBus.Expr

open Json (Value Fields)

/-- The trees of the sources read so far, and the budget of each evaluation. -/
structure Engine where
  /-- The trees by source. -/
  cache : NameMap Expr := []
  budget : Budget := {}

/-- A failed evaluation: what was evaluated, and why it has no value. -/
structure Failure where
  source : String
  error : Error

/-- The failure that a result is, if it is one. -/
def Failure.ofResult (source : String) : Except Error Value → List Failure
  | .ok _ => []
  | .error error => [⟨source, error⟩]

/-- An engine and what its expressions have done. -/
structure Session where
  engine : Engine := {}
  /-- The calls of host functions, oldest first. -/
  calls : List HostCall := []
  /-- The failed evaluations, newest first. -/
  failures : List Failure := []
  /-- Whether some evaluation broke off. -/
  broken : Bool := false

/-- A computation in a session. -/
abbrev SessionM := StateM Session

/-- The tree of a source, and the engine that keeps it.  A source that cannot be read leaves the
engine as it is. -/
def Engine.compile (engine : Engine) (source : String) : Except Error Expr × Engine :=
  match engine.cache.get? source with
  | some e => (.ok e, engine)
  | none =>
    match parse source with
    | .ok e => (.ok e, { engine with cache := engine.cache.insert source e })
    | .error error => (.error error, engine)

/-- Reads a source. -/
def compile (source : String) : SessionM (Except Error Expr) := fun s =>
  let (result, engine) := s.engine.compile source
  (result, { s with engine })

/-- Reads and evaluates a source. -/
def evaluate (source : String) (ctx : Context) : SessionM (Except Error Value) := do
  match ← compile source with
  | .error error =>
    modify fun s => { s with failures := ⟨source, error⟩ :: s.failures }
    return .error error
  | .ok e =>
    let s ← get
    let (result, trace) := run ctx s.engine.budget e
    let broke := match result with
      | .error .breakdown => true
      | _ => false
    set { s with
      calls := s.calls ++ trace.calls
      failures := Failure.ofResult source result ++ s.failures
      broken := s.broken || broke }
    return result

/-- Whether the value of a source is true.  A failure counts as false. -/
def evalGuard (source : String) (ctx : Context) : SessionM Bool := do
  match ← evaluate source ctx with
  | .ok v => return v.truthy
  | .error _ => return false

/-- The value of a source.  A failure and null count as no value. -/
def evalValue? (source : String) (ctx : Context) : SessionM (Option Value) := do
  match ← evaluate source ctx with
  | .ok .null => return none
  | .ok v => return some v
  | .error _ => return none

/-- The number of trees kept. -/
def Engine.cached (engine : Engine) : Nat := engine.cache.length

namespace Context

/-- What guards and computed states see: the octets of the frame as `data`, and `state`. -/
def ofFrame (frame : Bytes) (state : Fields) (hosts : NameMap HostFunction) : Context where
  vars := [("data", .arr (frame.map fun b => .nat b.toNat)), ("state", .obj state)]
  hosts := hosts

/-- What computed commands see: the argument as `value`, null if there is none, and `state`. -/
def ofCommand (value? : Option Value) (state : Fields) (hosts : NameMap HostFunction) :
    Context where
  vars := [("state", .obj state), ("value", .ofOption value?)]
  hosts := hosts

end Context

end PanelBus.Expr
