import Mathlib.Logic.Relation
import PanelBus.Expr.Engine
import PanelBus.Proofs.Expr.Arithmetic
/-!
# The course of an evaluation

An evaluation begins the evaluations of its parts one after the other.  It breaks off if and only if
it comes to a division of the least word by `-1`, or to the call of a host function before its time
is used up whose deadline the clock cannot tell.
-/

namespace PanelBus.Expr

open Json (Value)

variable {α β : Type} {ctx : Context} {budget : Budget} {t after : Trace}

/-! ## Computations with a trace -/

theorem run_bind_of_ok {m : EvalM α} {a : α} (h : m.run t = (.ok a, after)) (f : α → EvalM β) :
    (m >>= f).run t = (f a).run after := by
  change ExceptT.bindCont f (m.run t).1 (m.run t).2 = _
  rw [h]
  rfl

theorem run_bind_of_error {m : EvalM α} {error : Error} (h : m.run t = (.error error, after))
    (f : α → EvalM β) : (m >>= f).run t = (.error error, after) := by
  change ExceptT.bindCont f (m.run t).1 (m.run t).2 = _
  rw [h]
  rfl

theorem exists_of_run_bind {m : EvalM α} {f : α → EvalM β} {b : β}
    (h : (m >>= f).run t = (.ok b, after)) :
    ∃ a middle, m.run t = (.ok a, middle) ∧ (f a).run middle = (.ok b, after) := by
  cases hrun : m.run t with
  | mk result middle =>
    cases result with
    | error error =>
        rw [run_bind_of_error hrun] at h
        cases h
    | ok a => exact ⟨a, middle, rfl, (run_bind_of_ok hrun f).symm.trans h⟩

/-- The computation breaks off. -/
def Breaks (m : EvalM α) (t : Trace) : Prop := (m.run t).1 = .error .breakdown

theorem breaks_bind_iff {m : EvalM α} {f : α → EvalM β} :
    Breaks (m >>= f) t ↔
      Breaks m t ∨ ∃ a after, m.run t = (.ok a, after) ∧ Breaks (f a) after := by
  unfold Breaks
  cases hrun : m.run t with
  | mk result middle =>
    cases result with
    | error error =>
        rw [run_bind_of_error hrun]
        refine ⟨fun hbreaks => .inl (congrArg Except.error (Except.error.inj hbreaks)), ?_⟩
        rintro (hbreaks | ⟨_, _, hok, _⟩)
        · exact congrArg Except.error (Except.error.inj hbreaks)
        · cases hok
    | ok a =>
        rw [run_bind_of_ok hrun]
        refine ⟨fun hbreaks => .inr ⟨a, middle, rfl, hbreaks⟩, ?_⟩
        rintro (hbreaks | ⟨_, _, hok, hbreaks⟩)
        · cases hbreaks
        · cases hok
          exact hbreaks

theorem breaks_bind_contained_iff {m : EvalM α} {f : α → EvalM β}
    (hf : ∀ a after, ¬Breaks (f a) after) : Breaks (m >>= f) t ↔ Breaks m t := by
  rw [breaks_bind_iff, or_iff_left]
  rintro ⟨a, after, _, h⟩
  exact hf a after h

theorem not_breaks_pure (a : α) (t : Trace) : ¬Breaks (pure a : EvalM α) t := nofun

theorem breaks_throw_iff {error : Error} :
    Breaks (throw error : EvalM α) t ↔ error = .breakdown := by
  constructor
  · exact fun h => Except.error.inj h
  · rintro rfl
    rfl

theorem breaks_ofResult_iff {result : Except Error α} :
    Breaks (ofResult result) t ↔ result = .error .breakdown := by
  cases result with
  | ok a => exact iff_of_false nofun nofun
  | error error => exact Iff.rfl

/-! ## The clock -/

theorem TimeLimit.expired_eq_false_iff {limit : TimeLimit} {look : Nat} :
    limit.expired look = false ↔ limit.shows look - limit.started < limit.timeout :=
  decide_eq_false_iff_not.trans Nat.not_le

theorem TimeLimit.hasDeadline_eq_false_iff {limit : TimeLimit} :
    limit.hasDeadline = false ↔ limit.latest < limit.started + limit.timeout :=
  decide_eq_false_iff_not.trans Nat.not_le

theorem run_checkClock (budget : Budget) (look : Nat) (t : Trace) :
    (checkClock budget look).run t =
      (if budget.time.expired look then .error (@Error.timeout budget.time.timeout) else .ok (),
        t) := by
  unfold checkClock
  split <;> rfl

/-- What a step comes to that is taken after the trace. -/
def ticked (budget : Budget) (t : Trace) : Except Error Unit :=
  if budget.maxSteps < t.steps + 1 then .error (.stepLimit budget.maxSteps)
  else if (t.steps + 1) % clockInterval = 0 ∧ budget.time.expired t.looks = true then
    .error (@Error.timeout budget.time.timeout)
  else .ok ()

theorem run_tick (budget : Budget) (t : Trace) :
    (tick budget).run t = (ticked budget t, { t with steps := t.steps + 1 }) := by
  unfold ticked
  change (if budget.maxSteps < t.steps + 1 then _ else
    if (t.steps + 1) % clockInterval = 0 then checkClock budget t.looks else pure () :
      EvalM Unit).run { t with steps := t.steps + 1 } = _
  by_cases hlimit : budget.maxSteps < t.steps + 1
  · rw [if_pos hlimit, if_pos hlimit]
    rfl
  · rw [if_neg hlimit, if_neg hlimit]
    by_cases hclock : (t.steps + 1) % clockInterval = 0
    · rw [if_pos hclock, run_checkClock]
      simp only [hclock, true_and]
    · rw [if_neg hclock, if_neg fun hboth => hclock hboth.1]
      rfl

/-- What comes of noting a call after the trace, and the trace that it leaves. -/
def noted (budget : Budget) (call : HostCall) (t : Trace) : Except Error Unit × Trace :=
  if budget.time.expired t.looks then (.error (@Error.timeout budget.time.timeout), t)
  else if budget.time.hasDeadline = false then (.error .breakdown, t)
  else
    (if budget.time.expired (t.looks + 1) then .error (@Error.timeout budget.time.timeout)
      else .ok (), { t with calls := t.calls ++ [call] })

theorem run_noteCall (budget : Budget) (call : HostCall) (t : Trace) :
    (noteCall budget call).run t = noted budget call t := by
  unfold noted
  change (checkClock budget t.looks >>= fun _ => _ : EvalM Unit).run t = _
  have hbefore := run_checkClock budget t.looks t
  cases hearly : budget.time.expired t.looks with
  | true =>
      rw [hearly] at hbefore
      exact run_bind_of_error hbefore _
  | false =>
      rw [hearly] at hbefore
      refine (run_bind_of_ok hbefore _).trans ?_
      cases budget.time.hasDeadline with
      | false => rfl
      | true => exact run_checkClock budget (t.looks + 1) _

theorem callHost_eq (budget : Budget) (name : String) (host : HostFunction) (args : List Value) :
    callHost budget name host args =
      noteCall budget ⟨name, args⟩ >>= fun _ => ofResult ((host args).mapError (.host name)) := by
  unfold callHost
  cases host args <;> rfl

-- The time is used up while the function runs, and what it gives is dropped.
example : run { hosts := [("beep", fun _ => .ok .null)] }
    { time := { shows := fun look => look * 100000000 } } (.call "beep" []) =
      (.error (@Error.timeout 100000000), { steps := 1, calls := [⟨"beep", []⟩] }) := rfl

theorem looks_stepped (t : Trace) : ({ t with steps := t.steps + 1 } : Trace).looks =
    t.looks + if (t.steps + 1) % clockInterval = 0 then 1 else 0 := by
  unfold Trace.looks clockInterval
  dsimp only
  split <;> omega

theorem not_breaks_tick (budget : Budget) (t : Trace) : ¬Breaks (tick budget) t := by
  unfold Breaks
  rw [run_tick]
  unfold ticked
  dsimp only
  split
  · nofun
  · split <;> nofun

theorem breaks_noteCall_iff {call : HostCall} : Breaks (noteCall budget call) t ↔
    budget.time.shows t.looks - budget.time.started < budget.time.timeout ∧
      budget.time.latest < budget.time.started + budget.time.timeout := by
  rw [← TimeLimit.expired_eq_false_iff, ← TimeLimit.hasDeadline_eq_false_iff]
  unfold Breaks
  rw [run_noteCall]
  unfold noted
  cases budget.time.expired t.looks with
  | true => exact iff_of_false nofun nofun
  | false =>
    cases budget.time.hasDeadline with
    | false => exact iff_of_true rfl ⟨rfl, rfl⟩
    | true =>
      refine iff_of_false ?_ nofun
      cases budget.time.expired (t.looks + 1) <;> nofun

theorem breaks_applyFunction_iff {name : String} {args : List Value} :
    Breaks (applyFunction ctx budget name args) t ↔
      Builtin.ofName? name = none ∧ (∃ host, ctx.hosts.get? name = some host) ∧
        budget.time.shows t.looks - budget.time.started < budget.time.timeout ∧
        budget.time.latest < budget.time.started + budget.time.timeout := by
  unfold applyFunction
  cases Builtin.ofName? name with
  | some f =>
      refine iff_of_false ?_ nofun
      rw [breaks_ofResult_iff]
      exact (Builtin.contained_apply _ _).ne_breakdown
  | none =>
    cases ctx.hosts.get? name with
    | some host =>
        dsimp only
        rw [callHost_eq, breaks_bind_contained_iff fun _ _ => ?_, breaks_noteCall_iff]
        · exact ⟨fun h => ⟨rfl, ⟨host, rfl⟩, h⟩, fun h => h.2.2⟩
        · rw [breaks_ofResult_iff]
          cases host args <;> nofun
    | none =>
        refine iff_of_false (fun h => nomatch breaks_throw_iff.1 h) ?_
        rintro ⟨_, ⟨_, hhost⟩, _⟩
        cases hhost

/-! ## The parts of an evaluation -/

/-- The left value alone decides the operator on truth values. -/
def Decided (op : BinaryOp) (lhs : Value) : Prop :=
  op = .and ∧ lhs.truthy = false ∨ op = .or ∧ lhs.truthy = true

theorem eval_binary_of_decided {op : BinaryOp} {lhs rhs : Expr} {middle : Trace} {a : Value}
    (htick : (tick budget).run t = (.ok (), middle))
    (hlhs : (eval ctx budget lhs).run middle = (.ok a, after)) (h : Decided op a) :
    (eval ctx budget (.binary op lhs rhs)).run t = (.ok (.bool a.truthy), after) := by
  rw [eval, run_bind_of_ok htick, run_bind_of_ok hlhs]
  rcases h with ⟨rfl, h⟩ | ⟨rfl, h⟩ <;> rw [h] <;> rfl

theorem eval_binary_of_not_decided {op : BinaryOp} {lhs rhs : Expr} {middle : Trace} {a : Value}
    (htick : (tick budget).run t = (.ok (), middle))
    (hlhs : (eval ctx budget lhs).run middle = (.ok a, after)) (h : ¬Decided op a) :
    (eval ctx budget (.binary op lhs rhs)).run t =
      (eval ctx budget rhs >>= fun b => ofResult (applyBinary op a b)).run after := by
  rw [eval, run_bind_of_ok htick, run_bind_of_ok hlhs]
  split
  · next hfalse => exact absurd (.inl ⟨rfl, hfalse⟩) h
  · next htrue => exact absurd (.inr ⟨rfl, htrue⟩) h
  · rfl

section Parts

variable (ctx budget)

/-- The evaluation of an expression begins that of a part, after the parts before it have got their
values. -/
inductive Begins : Expr × Trace → Expr × Trace → Prop where
  | item {before behind : List Expr} {part : Expr} {values : List Value} {t middle after : Trace}
      (htick : (tick budget).run t = (.ok (), middle))
      (hbefore : (evalAll ctx budget before).run middle = (.ok values, after)) :
      Begins (.list (before ++ part :: behind), t) (part, after)
  | argument {name : String} {before behind : List Expr} {part : Expr} {values : List Value}
      {t middle after : Trace} (htick : (tick budget).run t = (.ok (), middle))
      (hbefore : (evalAll ctx budget before).run middle = (.ok values, after)) :
      Begins (.call name (before ++ part :: behind), t) (part, after)
  | target {target position : Expr} {t middle : Trace}
      (htick : (tick budget).run t = (.ok (), middle)) :
      Begins (.index target position, t) (target, middle)
  | position {target position : Expr} {value : Value} {t middle after : Trace}
      (htick : (tick budget).run t = (.ok (), middle))
      (htarget : (eval ctx budget target).run middle = (.ok value, after)) :
      Begins (.index target position, t) (position, after)
  | owner {target : Expr} {field : String} {t middle : Trace}
      (htick : (tick budget).run t = (.ok (), middle)) :
      Begins (.member target field, t) (target, middle)
  | operand {op : UnaryOp} {operand : Expr} {t middle : Trace}
      (htick : (tick budget).run t = (.ok (), middle)) :
      Begins (.unary op operand, t) (operand, middle)
  | left {op : BinaryOp} {lhs rhs : Expr} {t middle : Trace}
      (htick : (tick budget).run t = (.ok (), middle)) :
      Begins (.binary op lhs rhs, t) (lhs, middle)
  | right {op : BinaryOp} {lhs rhs : Expr} {value : Value} {t middle after : Trace}
      (htick : (tick budget).run t = (.ok (), middle))
      (hlhs : (eval ctx budget lhs).run middle = (.ok value, after)) (hopen : ¬Decided op value) :
      Begins (.binary op lhs rhs, t) (rhs, after)
  | test {test yes no : Expr} {t middle : Trace}
      (htick : (tick budget).run t = (.ok (), middle)) :
      Begins (.cond test yes no, t) (test, middle)
  | yes {test yes no : Expr} {value : Value} {t middle after : Trace}
      (htick : (tick budget).run t = (.ok (), middle))
      (htest : (eval ctx budget test).run middle = (.ok value, after))
      (htrue : value.truthy = true) : Begins (.cond test yes no, t) (yes, after)
  | no {test yes no : Expr} {value : Value} {t middle after : Trace}
      (htick : (tick budget).run t = (.ok (), middle))
      (htest : (eval ctx budget test).run middle = (.ok value, after))
      (hfalse : value.truthy = false) : Begins (.cond test yes no, t) (no, after)

/-- The expression divides the least word by `-1`, both computed by its sides. -/
def DividesLeast (e : Expr) (t : Trace) : Prop :=
  ∃ lhs rhs middle between after, e = .binary .div lhs rhs ∧
    (tick budget).run t = (.ok (), middle) ∧
    (eval ctx budget lhs).run middle = (.ok (.int Word.least), between) ∧
    (eval ctx budget rhs).run between = (.ok (.int (-1)), after)

/-- The expression calls a host function before the time is used up, and the deadline of the call
lies behind the last instant that the clock can tell. -/
def CallsUndated (e : Expr) (t : Trace) : Prop :=
  ∃ name args values middle after, e = .call name args ∧
    (tick budget).run t = (.ok (), middle) ∧
    (evalAll ctx budget args).run middle = (.ok values, after) ∧
    Builtin.ofName? name = none ∧ (∃ host, ctx.hosts.get? name = some host) ∧
    budget.time.shows after.looks - budget.time.started < budget.time.timeout ∧
    budget.time.latest < budget.time.started + budget.time.timeout

/-- The evaluation of the expression comes to a part that has the property. -/
def Meets (P : Expr → Trace → Prop) (e : Expr) (t : Trace) : Prop :=
  ∃ part, Relation.ReflTransGen (Begins ctx budget) (e, t) part ∧ P part.1 part.2

/-- The evaluation of the expression comes to a division of the least word by `-1`. -/
def MeetsLeast : Expr → Trace → Prop := Meets ctx budget (DividesLeast ctx budget)

/-- The evaluation of the expression comes to a call whose deadline the clock cannot tell. -/
def MeetsUndated : Expr → Trace → Prop := Meets ctx budget (CallsUndated ctx budget)

end Parts

theorem sizeOf_lt_append (before : List Expr) (part : Expr) (behind : List Expr) :
    sizeOf part < sizeOf (before ++ part :: behind) :=
  List.sizeOf_lt_of_mem (List.mem_append_right _ List.mem_cons_self)

theorem Begins.sizeOf_lt {whole part : Expr × Trace} (h : Begins ctx budget whole part) :
    sizeOf part.1 < sizeOf whole.1 := by
  cases h with
  | item =>
      rw [Expr.list.sizeOf_spec]
      exact Nat.lt_of_lt_of_le (sizeOf_lt_append _ _ _) (Nat.le_add_left _ _)
  | argument =>
      rw [Expr.call.sizeOf_spec]
      exact Nat.lt_of_lt_of_le (sizeOf_lt_append _ _ _) (Nat.le_add_left _ _)
  | target | position | owner | operand | left | right | test | yes | no => simp <;> omega

/-! ## What breaks off -/

theorem breaks_tick_bind_iff {f : Unit → EvalM β} :
    Breaks (tick budget >>= f) t ↔
      ∃ middle, (tick budget).run t = (.ok (), middle) ∧ Breaks (f ()) middle := by
  rw [breaks_bind_iff, or_iff_right (not_breaks_tick budget t)]
  exact ⟨fun ⟨_, middle, htick, h⟩ => ⟨middle, htick, h⟩,
    fun ⟨middle, htick, h⟩ => ⟨(), middle, htick, h⟩⟩

/-- The values of expressions break off at the first expression that does. -/
theorem breaks_evalAll_iff (items : List Expr) (t : Trace) :
    Breaks (evalAll ctx budget items) t ↔
      ∃ before part behind values after, items = before ++ part :: behind ∧
        (evalAll ctx budget before).run t = (.ok values, after) ∧
        Breaks (eval ctx budget part) after := by
  induction items generalizing t with
  | nil =>
      rw [evalAll]
      refine iff_of_false (not_breaks_pure _ _) ?_
      rintro ⟨before, part, behind, _, _, hsplit, _⟩
      cases before <;> cases hsplit
  | cons e rest ih =>
      rw [evalAll, breaks_bind_iff]
      constructor
      · rintro (hfirst | ⟨value, middle, hvalue, hrest⟩)
        · refine ⟨[], e, rest, [], t, rfl, ?_, hfirst⟩
          rw [evalAll]
          rfl
        · rw [breaks_bind_contained_iff fun _ _ => not_breaks_pure _ _, ih] at hrest
          obtain ⟨before, part, behind, values, after, rfl, hbefore, hpart⟩ := hrest
          refine ⟨e :: before, part, behind, value :: values, after, rfl, ?_, hpart⟩
          rw [evalAll, run_bind_of_ok hvalue, run_bind_of_ok hbefore]
          rfl
      · rintro ⟨before, part, behind, values, after, hsplit, hbefore, hpart⟩
        cases before with
        | nil =>
            obtain ⟨rfl, rfl⟩ := List.cons.inj hsplit
            rw [evalAll] at hbefore
            cases hbefore
            exact .inl hpart
        | cons first before =>
            obtain ⟨rfl, rfl⟩ := List.cons.inj hsplit
            rw [evalAll] at hbefore
            obtain ⟨value, middle, hvalue, hlater⟩ := exists_of_run_bind hbefore
            obtain ⟨values, last, hvalues, hlast⟩ := exists_of_run_bind hlater
            obtain ⟨_, rfl⟩ := Prod.mk.inj hlast
            refine .inr ⟨value, middle, hvalue, ?_⟩
            rw [breaks_bind_contained_iff fun _ _ => not_breaks_pure _ _, ih]
            exact ⟨before, part, behind, values, last, rfl, hvalues, hpart⟩

theorem breaks_bind_of_ok {m : EvalM α} {f : α → EvalM β} {a : α}
    (h : m.run t = (.ok a, after)) : Breaks (m >>= f) t ↔ Breaks (f a) after := by
  unfold Breaks
  rw [run_bind_of_ok h]

theorem Breaks.bind {m : EvalM α} (h : Breaks m t) (f : α → EvalM β) : Breaks (m >>= f) t :=
  breaks_bind_iff.2 (.inl h)

/-- What breaks a part off breaks the whole off. -/
theorem Begins.breaks {whole part : Expr × Trace} (h : Begins ctx budget whole part)
    (hpart : Breaks (eval ctx budget part.1) part.2) :
    Breaks (eval ctx budget whole.1) whole.2 := by
  cases h with
  | item htick hbefore =>
      rw [eval, breaks_bind_of_ok htick]
      exact ((breaks_evalAll_iff _ _).2 ⟨_, _, _, _, _, rfl, hbefore, hpart⟩).bind _
  | argument htick hbefore =>
      rw [eval, breaks_bind_of_ok htick]
      exact ((breaks_evalAll_iff _ _).2 ⟨_, _, _, _, _, rfl, hbefore, hpart⟩).bind _
  | target htick | owner htick | operand htick | left htick | test htick =>
      rw [eval, breaks_bind_of_ok htick]
      exact hpart.bind _
  | position htick htarget =>
      rw [eval, breaks_bind_of_ok htick, breaks_bind_of_ok htarget]
      exact hpart.bind _
  | right htick hlhs hopen =>
      unfold Breaks
      rw [eval_binary_of_not_decided htick hlhs hopen]
      exact hpart.bind _
  | yes htick htest htrue =>
      rw [eval, breaks_bind_of_ok htick, breaks_bind_of_ok htest, if_pos htrue]
      exact hpart
  | no htick htest hfalse =>
      rw [eval, breaks_bind_of_ok htick, breaks_bind_of_ok htest, hfalse]
      exact hpart

theorem DividesLeast.breaks {e : Expr} (h : DividesLeast ctx budget e t) :
    Breaks (eval ctx budget e) t := by
  obtain ⟨lhs, rhs, middle, between, after, rfl, htick, hlhs, hrhs⟩ := h
  have hopen : ¬Decided .div (.int Word.least) := by
    rintro (⟨hop, _⟩ | ⟨hop, _⟩) <;> cases hop
  unfold Breaks
  rw [eval_binary_of_not_decided htick hlhs hopen, run_bind_of_ok hrhs]
  exact breaks_ofResult_iff.2 ((applyBinary_eq_breakdown_iff _ _ _).2 ⟨rfl, rfl, rfl⟩)

theorem CallsUndated.breaks {e : Expr} (h : CallsUndated ctx budget e t) :
    Breaks (eval ctx budget e) t := by
  obtain ⟨name, args, values, middle, after, rfl, htick, hargs, hcall⟩ := h
  rw [eval, breaks_bind_of_ok htick, breaks_bind_of_ok hargs, breaks_applyFunction_iff]
  exact hcall

/-- An evaluation that breaks off does so in a part, or divides the least word by `-1` itself, or
itself calls a host function whose deadline the clock cannot tell. -/
theorem part_or_dividesLeast_or_callsUndated {e : Expr} (h : Breaks (eval ctx budget e) t) :
    (∃ part, Begins ctx budget (e, t) part ∧ Breaks (eval ctx budget part.1) part.2) ∨
      DividesLeast ctx budget e t ∨ CallsUndated ctx budget e t := by
  cases e with
  | lit v =>
      rw [eval, breaks_tick_bind_iff] at h
      obtain ⟨middle, _, h⟩ := h
      exact absurd h (not_breaks_pure _ _)
  | ident name =>
      rw [eval, breaks_tick_bind_iff] at h
      obtain ⟨middle, _, h⟩ := h
      split at h
      · exact absurd h (not_breaks_pure _ _)
      · cases breaks_throw_iff.1 h
  | list items =>
      rw [eval, breaks_tick_bind_iff] at h
      obtain ⟨middle, htick, h⟩ := h
      rw [breaks_bind_contained_iff fun _ _ => not_breaks_pure _ _, breaks_evalAll_iff] at h
      obtain ⟨before, part, behind, values, after, rfl, hbefore, hpart⟩ := h
      exact .inl ⟨_, .item htick hbefore, hpart⟩
  | call name args =>
      rw [eval, breaks_tick_bind_iff] at h
      obtain ⟨middle, htick, h⟩ := h
      rcases breaks_bind_iff.1 h with hargs | ⟨values, after, hargs, hcall⟩
      · obtain ⟨before, part, behind, values, after, rfl, hbefore, hpart⟩ :=
          (breaks_evalAll_iff _ _).1 hargs
        exact .inl ⟨_, .argument htick hbefore, hpart⟩
      · have hundated := breaks_applyFunction_iff.1 hcall
        exact .inr (.inr ⟨name, args, values, middle, after, rfl, htick, hargs, hundated⟩)
  | index target position =>
      rw [eval, breaks_tick_bind_iff] at h
      obtain ⟨middle, htick, h⟩ := h
      rcases breaks_bind_iff.1 h with htarget | ⟨value, after, htarget, h⟩
      · exact .inl ⟨_, .target htick, htarget⟩
      · rw [breaks_bind_contained_iff fun _ _ => ?_] at h
        · exact .inl ⟨_, .position htick htarget, h⟩
        · rw [breaks_ofResult_iff]
          exact (contained_elementAt _ _).ne_breakdown
  | member target field =>
      rw [eval, breaks_tick_bind_iff] at h
      obtain ⟨middle, htick, h⟩ := h
      rw [breaks_bind_contained_iff fun _ _ => ?_] at h
      · exact .inl ⟨_, .owner htick, h⟩
      · rw [breaks_ofResult_iff]
        exact (contained_fieldOf _ _).ne_breakdown
  | unary op operand =>
      rw [eval, breaks_tick_bind_iff] at h
      obtain ⟨middle, htick, h⟩ := h
      rw [breaks_bind_contained_iff fun _ _ => ?_] at h
      · exact .inl ⟨_, .operand htick, h⟩
      · rw [breaks_ofResult_iff]
        exact (contained_applyUnary _ _).ne_breakdown
  | binary op lhs rhs =>
      have hparts := h
      rw [eval, breaks_tick_bind_iff] at hparts
      obtain ⟨middle, htick, hparts⟩ := hparts
      rcases breaks_bind_iff.1 hparts with hlhs | ⟨a, between, hlhs, _⟩
      · exact .inl ⟨_, .left htick, hlhs⟩
      · unfold Breaks at h
        by_cases hdecided : Decided op a
        · rw [eval_binary_of_decided htick hlhs hdecided] at h
          cases h
        · rw [eval_binary_of_not_decided htick hlhs hdecided] at h
          rcases breaks_bind_iff.1 h with hrhs | ⟨b, after, hrhs, h⟩
          · exact .inl ⟨_, .right htick hlhs hdecided, hrhs⟩
          · obtain ⟨rfl, rfl, rfl⟩ :=
              (applyBinary_eq_breakdown_iff _ _ _).1 (breaks_ofResult_iff.1 h)
            exact .inr (.inl ⟨lhs, rhs, middle, between, after, rfl, htick, hlhs, hrhs⟩)
  | cond test yes no =>
      rw [eval, breaks_tick_bind_iff] at h
      obtain ⟨middle, htick, h⟩ := h
      rcases breaks_bind_iff.1 h with htest | ⟨value, after, htest, h⟩
      · exact .inl ⟨_, .test htick, htest⟩
      · split at h
        · next htrue => exact .inl ⟨_, .yes htick htest htrue, h⟩
        · next hfalse => exact .inl ⟨_, .no htick htest (eq_false_of_ne_true hfalse), h⟩

theorem breaks_of_reach {whole part : Expr × Trace}
    (hreach : Relation.ReflTransGen (Begins ctx budget) whole part)
    (hpart : Breaks (eval ctx budget part.1) part.2) :
    Breaks (eval ctx budget whole.1) whole.2 := by
  induction hreach using Relation.ReflTransGen.head_induction_on with
  | refl => exact hpart
  | head hbegins _ ih => exact hbegins.breaks ih

theorem Meets.head {P : Expr → Trace → Prop} {e : Expr} {part : Expr × Trace}
    (hbegins : Begins ctx budget (e, t) part) (h : Meets ctx budget P part.1 part.2) :
    Meets ctx budget P e t := by
  obtain ⟨last, hreach, hlast⟩ := h
  exact ⟨last, .head hbegins hreach, hlast⟩

theorem Meets.breaks {P : Expr → Trace → Prop} {e : Expr}
    (hP : ∀ {part : Expr} {t : Trace}, P part t → Breaks (eval ctx budget part) t)
    (h : Meets ctx budget P e t) : Breaks (eval ctx budget e) t := by
  obtain ⟨last, hreach, hlast⟩ := h
  exact breaks_of_reach hreach (hP hlast)

/-- An evaluation breaks off if and only if it comes to a division of the least word by `-1` or to a
call whose deadline the clock cannot tell. -/
theorem breaks_iff_meets (e : Expr) (t : Trace) :
    Breaks (eval ctx budget e) t ↔ MeetsLeast ctx budget e t ∨ MeetsUndated ctx budget e t := by
  constructor
  · intro h
    -- Parts are smaller than the whole.
    induction hsize : sizeOf e using Nat.strongRecOn generalizing e t with
    | ind size ih =>
      rcases part_or_dividesLeast_or_callsUndated h with ⟨part, hpart, hbreaks⟩ | hdivides | hcalls
      · rcases ih _ (hsize ▸ hpart.sizeOf_lt) part.1 part.2 hbreaks rfl with hleast | hundated
        · exact .inl (hleast.head hpart)
        · exact .inr (hundated.head hpart)
      · exact .inl ⟨(e, t), .refl, hdivides⟩
      · exact .inr ⟨(e, t), .refl, hcalls⟩
  · rintro (hleast | hundated)
    · exact hleast.breaks DividesLeast.breaks
    · exact hundated.breaks CallsUndated.breaks

end PanelBus.Expr
