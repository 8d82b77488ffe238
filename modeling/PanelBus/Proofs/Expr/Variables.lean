import PanelBus.Proofs.Expr.Session
/-!
# What expressions name

An expression depends on no variable and on no host function that it does not name, and not on host
functions that have the name of one of the language.
-/

namespace PanelBus.Expr

mutual

/-- The variables that an expression names. -/
def idents : Expr → List String
  | .lit _ => []
  | .list items => identsAll items
  | .ident name => [name]
  | .index target position => target.idents ++ position.idents
  | .member target _ => target.idents
  | .call _ args => identsAll args
  | .unary _ operand => operand.idents
  | .binary _ lhs rhs => lhs.idents ++ rhs.idents
  | .cond test yes no => test.idents ++ (yes.idents ++ no.idents)

/-- The variables that expressions name. -/
def identsAll : List Expr → List String
  | [] => []
  | e :: rest => e.idents ++ identsAll rest

end

mutual

/-- The functions that an expression calls. -/
def callees : Expr → List String
  | .lit _ => []
  | .list items => calleesAll items
  | .ident _ => []
  | .index target position => target.callees ++ position.callees
  | .member target _ => target.callees
  | .call name args => name :: calleesAll args
  | .unary _ operand => operand.callees
  | .binary _ lhs rhs => lhs.callees ++ rhs.callees
  | .cond test yes no => test.callees ++ (yes.callees ++ no.callees)

/-- The functions that expressions call. -/
def calleesAll : List Expr → List String
  | [] => []
  | e :: rest => e.callees ++ calleesAll rest

end

/-- Two contexts give the same value, or none, to each of the variables, and the same host function,
or none, to each of the functions that does not belong to the language. -/
structure Context.Agree (ctx ctx' : Context) (idents callees : List String) : Prop where
  vars : ∀ name ∈ idents, ctx.vars.get? name = ctx'.vars.get? name
  hosts : ∀ name ∈ callees, Builtin.ofName? name = none →
    ctx.hosts.get? name = ctx'.hosts.get? name

variable {ctx ctx' : Context} {budget : Budget} {names others functions more : List String}

theorem Context.Agree.left (h : ctx.Agree ctx' (names ++ others) (functions ++ more)) :
    ctx.Agree ctx' names functions where
  vars name hname := h.vars name (List.mem_append_left _ hname)
  hosts name hname := h.hosts name (List.mem_append_left _ hname)

theorem Context.Agree.right (h : ctx.Agree ctx' (names ++ others) (functions ++ more)) :
    ctx.Agree ctx' others more where
  vars name hname := h.vars name (List.mem_append_right _ hname)
  hosts name hname := h.hosts name (List.mem_append_right _ hname)

theorem applyFunction_congr {name : String} (args : List Json.Value)
    (h : Builtin.ofName? name = none → ctx.hosts.get? name = ctx'.hosts.get? name) :
    applyFunction ctx budget name args = applyFunction ctx' budget name args := by
  unfold applyFunction
  cases hbuiltin : Builtin.ofName? name with
  | some f => rfl
  | none => rw [h hbuiltin]

mutual

/-- Contexts that agree on what an expression names make no difference to it. -/
theorem eval_congr : ∀ e : Expr, ctx.Agree ctx' e.idents e.callees →
    eval ctx budget e = eval ctx' budget e
  | .lit _, _ => rfl
  | .list items, h => by
      rw [eval, eval, evalAll_congr items h]
  | .ident name, h => by
      rw [eval, eval, h.vars name List.mem_cons_self]
  | .index target position, h => by
      rw [eval, eval, eval_congr target h.left, eval_congr position h.right]
  | .member target _, h => by
      rw [eval, eval, eval_congr target h]
  | .call name args, h => by
      have hargs : ctx.Agree ctx' (identsAll args) (calleesAll args) :=
        ⟨h.vars, fun other hother => h.hosts other (List.mem_cons_of_mem _ hother)⟩
      have happly : applyFunction ctx budget name = applyFunction ctx' budget name :=
        funext fun vs => applyFunction_congr vs (h.hosts name List.mem_cons_self)
      rw [eval, eval, evalAll_congr args hargs, happly]
  | .unary _ operand, h => by
      rw [eval, eval, eval_congr operand h]
  | .binary _ lhs rhs, h => by
      rw [eval, eval, eval_congr lhs h.left, eval_congr rhs h.right]
  | .cond test yes no, h => by
      rw [eval, eval, eval_congr test h.left, eval_congr yes h.right.left,
        eval_congr no h.right.right]

theorem evalAll_congr : ∀ items : List Expr,
    ctx.Agree ctx' (identsAll items) (calleesAll items) →
    evalAll ctx budget items = evalAll ctx' budget items
  | [], _ => rfl
  | e :: rest, h => by
      rw [evalAll, evalAll, eval_congr e h.left, evalAll_congr rest h.right]

end

/-- Besides the state there is only the frame to name. -/
theorem get?_ofFrame {name : String} (h : name ≠ "state") (frame : Bytes) (state : Json.Fields)
    (hosts : NameMap HostFunction) :
    (Context.ofFrame frame state hosts).vars.get? name =
      NameMap.get? [("data", .arr (frame.map fun b => .nat b.toNat))] name := by
  change NameMap.get? [_, ("state", _)] name = _
  unfold NameMap.get?
  rw [List.lookup_cons, List.lookup_cons, List.lookup_cons, beq_eq_false_iff_ne.2 h]

/-- The source, if it can be read, does not name the variable. -/
def Spares (name source : String) : Prop := ∀ e, parse source = .ok e → name ∉ e.idents

/-- What a source comes to at a frame does not depend on the state, unless it names it. -/
theorem outcome_ofFrame_congr {source : String} (h : Spares "state" source) (frame : Bytes)
    (state state' : Json.Fields) (hosts : NameMap HostFunction) :
    outcome budget source (.ofFrame frame state hosts) =
      outcome budget source (.ofFrame frame state' hosts) := by
  unfold outcome
  cases hread : parse source with
  | error error => rfl
  | ok e =>
      have heval : eval (.ofFrame frame state hosts) budget e =
          eval (.ofFrame frame state' hosts) budget e := by
        refine eval_congr e ⟨fun name hname => ?_, fun _ _ _ => rfl⟩
        have hother : name ≠ "state" := fun hsame => h e hread (hsame ▸ hname)
        rw [get?_ofFrame hother, get?_ofFrame hother]
      change (run _ budget e).1 = (run _ budget e).1
      unfold run
      rw [heval]

end PanelBus.Expr
