import PanelBus.Expr.Builtin
import PanelBus.Word
/-!
# Evaluation of expressions

An evaluation reads variables, calls host functions and counts its steps: one for every part of
the tree that it enters.  It stops with a failure when it has taken more steps than its budget
allows, and, if its time is used up, at the next look at the clock.  The clock is looked at every
thirty-two steps and before and after each call of a host function.
-/

namespace PanelBus.Expr

open Json (Value Fields)

/-- The time that an evaluation may take, and the clock that it looks at.  Instants and spans are
counted in nanoseconds, and the looks from the start of the evaluation. -/
structure TimeLimit where
  timeout : Nat := 100000000
  started : Nat := 0
  /-- The last instant that the clock can tell: its seconds are signed words. -/
  latest : Nat := Word.half * 1000000000 - 1
  /-- The instant that the clock shows at the look of that number. -/
  shows : Nat → Nat := fun _ => started

namespace TimeLimit

/-- The clock stands still. -/
def unlimited : TimeLimit := {}

/-- Every look at the clock finds the time used up. -/
def none : TimeLimit := { timeout := 0 }

/-- Whether the look of that number finds the time used up. -/
def expired (limit : TimeLimit) (look : Nat) : Bool :=
  limit.timeout ≤ limit.shows look - limit.started

/-- Whether the clock can tell the instant at which the time will be used up. -/
def hasDeadline (limit : TimeLimit) : Bool := limit.started + limit.timeout ≤ limit.latest

end TimeLimit

/-- What an evaluation may use. -/
structure Budget where
  maxSteps : Nat := 10000
  time : TimeLimit := .unlimited

/-- A host function: a value or the text of its failure, by the arguments alone. -/
abbrev HostFunction := List Value → Except String Value

/-- What an expression may refer to. -/
structure Context where
  vars : Fields := []
  hosts : NameMap HostFunction := []

/-- A call of a host function. -/
structure HostCall where
  name : String
  args : List Value

/-- What an evaluation has done so far. -/
structure Trace where
  steps : Nat := 0
  /-- The calls of host functions, oldest first. -/
  calls : List HostCall := []

/-- The number of steps from one look at the clock to the next. -/
def clockInterval : Nat := 32

/-- The number of looks at the clock so far: one in every interval of steps, and two for each
call. -/
def Trace.looks (t : Trace) : Nat := t.steps / clockInterval + 2 * t.calls.length

/-- A computation that may fail and adds to the trace either way. -/
abbrev EvalM := ExceptT Error (StateM Trace)

/-- Looks at the clock, after that many other looks. -/
def checkClock (budget : Budget) (look : Nat) : EvalM Unit :=
  if budget.time.expired look then throw (@Error.timeout budget.time.timeout) else pure ()

/-- Takes one step. -/
def tick (budget : Budget) : EvalM Unit := do
  let look := (← get).looks
  modify fun t => { t with steps := t.steps + 1 }
  let t ← get
  if budget.maxSteps < t.steps then throw (.stepLimit budget.maxSteps)
  if t.steps % clockInterval = 0 then checkClock budget look

/-- A result that was computed without a trace. -/
def ofResult {α : Type} (result : Except Error α) : EvalM α :=
  match result with
  | .ok a => pure a
  | .error e => throw e

/-- Notes the call of a host function, with a look at the clock before it and one after it.  The
function is told its deadline, so the evaluation breaks off where the clock cannot tell it. -/
def noteCall (budget : Budget) (call : HostCall) : EvalM Unit := do
  let look := (← get).looks
  checkClock budget look
  if !budget.time.hasDeadline then throw .breakdown
  modify fun t => { t with calls := t.calls ++ [call] }
  checkClock budget (look + 1)

/-- Calls a host function.  What it gives too late is dropped. -/
def callHost (budget : Budget) (name : String) (host : HostFunction) (args : List Value) :
    EvalM Value := do
  noteCall budget ⟨name, args⟩
  match host args with
  | .ok v => return v
  | .error message => throw (.host name message)

/-- Applies the function of that name: one of the language, or else a host function. -/
def applyFunction (ctx : Context) (budget : Budget) (name : String) (args : List Value) :
    EvalM Value :=
  match Builtin.ofName? name with
  | some f => ofResult (f.apply args)
  | none =>
    match ctx.hosts.get? name with
    | some host => callHost budget name host args
    | none => throw (.unknownFunction name)

mutual

/-- The value of an expression. -/
def eval (ctx : Context) (budget : Budget) : Expr → EvalM Value
  | .lit v => do
    tick budget
    return v
  | .list items => do
    tick budget
    return .arr (← evalAll ctx budget items)
  | .ident name => do
    tick budget
    match ctx.vars.get? name with
    | some v => return v
    | none => throw (.unknownVariable name)
  | .index target position => do
    tick budget
    let t ← eval ctx budget target
    let p ← eval ctx budget position
    ofResult (elementAt t p)
  | .member target field => do
    tick budget
    let t ← eval ctx budget target
    ofResult (fieldOf t field)
  | .call name args => do
    tick budget
    let vs ← evalAll ctx budget args
    applyFunction ctx budget name vs
  | .unary op operand => do
    tick budget
    let v ← eval ctx budget operand
    ofResult (applyUnary op v)
  | .binary op lhs rhs => do
    tick budget
    let a ← eval ctx budget lhs
    -- The two operators on truth values do not look at the right side when the left one decides.
    match op, a.truthy with
    | .and, false => return .bool false
    | .or, true => return .bool true
    | _, _ =>
      let b ← eval ctx budget rhs
      ofResult (applyBinary op a b)
  | .cond test yes no => do
    tick budget
    let v ← eval ctx budget test
    if v.truthy then eval ctx budget yes else eval ctx budget no

/-- The values of expressions, evaluated from left to right. -/
def evalAll (ctx : Context) (budget : Budget) : List Expr → EvalM (List Value)
  | [] => pure []
  | e :: rest => do
    let v ← eval ctx budget e
    let vs ← evalAll ctx budget rest
    return v :: vs

end

/-- The result of an expression and the trace of its evaluation. -/
def run (ctx : Context) (budget : Budget) (e : Expr) : Except Error Value × Trace :=
  (eval ctx budget e).run {}

end PanelBus.Expr
