import PanelBus.Proofs.Expr.Steps
import PanelBus.Proofs.Expr.Variables
/-!
# The story of an evaluation

An evaluation takes steps and calls host functions.  The story of an expression tells both in their
order and knows neither traces nor budgets: the stories of the parts stand one behind the other as
they are written, and a part that is passed over has none.  What a budget does, its clock included,
is to cut the story short.  Once the time is used up, no host function is called any more.
-/

namespace PanelBus.Expr

open Json (Value)

variable {α β : Type} {ctx ctx' : Context} {budget : Budget} {t : Trace}

instance (op : BinaryOp) (lhs : Value) : Decidable (Decided op lhs) :=
  inferInstanceAs (Decidable (_ ∧ _ ∨ _ ∧ _))

/-- What an evaluation does at a time. -/
inductive Event where
  /-- It enters a part of the tree. -/
  | step
  | call (made : HostCall)

/-- All that an evaluation does if nothing cuts it short, and what comes of it. -/
structure Story (α : Type) where
  events : List Event
  result : Except Error α

namespace Story

/-- Nothing is done. -/
def ends (result : Except Error α) : Story α := ⟨[], result⟩

/-- A step, and then a story. -/
def stepped (story : Story α) : Story α := ⟨.step :: story.events, story.result⟩

/-- A story, and then the one that goes on from its value; a failure ends both. -/
def andThen (story : Story α) (next : α → Story β) : Story β :=
  match story.result with
  | .ok a => ⟨story.events ++ (next a).events, (next a).result⟩
  | .error error => ⟨story.events, .error error⟩

end Story

/-- The story of a function that is applied to values.  Functions of the language do nothing that
shows. -/
def storyOfCall (ctx : Context) (name : String) (args : List Value) : Story Value :=
  match Builtin.ofName? name with
  | some f => .ends (f.apply args)
  | none =>
    match ctx.hosts.get? name with
    | some host => ⟨[.call ⟨name, args⟩], (host args).mapError (.host name)⟩
    | none => .ends (.error (.unknownFunction name))

mutual

/-- The story of an expression. -/
def story (ctx : Context) : Expr → Story Value
  | .lit v => (Story.ends (.ok v)).stepped
  | .list items => ((storyAll ctx items).andThen fun vs => .ends (.ok (.arr vs))).stepped
  | .ident name =>
    match ctx.vars.get? name with
    | some v => (Story.ends (.ok v)).stepped
    | none => (Story.ends (.error (.unknownVariable name))).stepped
  | .index target position =>
    ((story ctx target).andThen fun a =>
      (story ctx position).andThen fun b => .ends (elementAt a b)).stepped
  | .member target field => ((story ctx target).andThen fun v => .ends (fieldOf v field)).stepped
  | .call name args => ((storyAll ctx args).andThen (storyOfCall ctx name)).stepped
  | .unary op operand => ((story ctx operand).andThen fun v => .ends (applyUnary op v)).stepped
  | .binary op lhs rhs =>
    ((story ctx lhs).andThen fun a =>
      if Decided op a then .ends (.ok (.bool a.truthy))
      else (story ctx rhs).andThen fun b => .ends (applyBinary op a b)).stepped
  | .cond test yes no =>
    ((story ctx test).andThen fun v => if v.truthy then story ctx yes else story ctx no).stepped

/-- The story of expressions one after the other. -/
def storyAll (ctx : Context) : List Expr → Story (List Value)
  | [] => .ends (.ok [])
  | e :: rest =>
    (story ctx e).andThen fun v => (storyAll ctx rest).andThen fun vs => .ends (.ok (v :: vs))

end

/-! ## Stories under a budget -/

/-- Does what an event tells.  The budget may not allow it. -/
def enact (budget : Budget) : Event → EvalM Unit
  | .step => tick budget
  | .call made => noteCall budget made

/-- Does what events tell, one after the other. -/
def follow (budget : Budget) : List Event → EvalM Unit
  | [] => pure ()
  | event :: rest => do
    enact budget event
    follow budget rest

/-- What comes of a story under a budget: its result, if the budget allows all that it tells. -/
def Story.under (budget : Budget) (story : Story α) : EvalM α := do
  follow budget story.events
  ofResult story.result

theorem follow_append (first second : List Event) :
    follow budget (first ++ second) = follow budget first >>= fun _ => follow budget second := by
  induction first with
  | nil => exact (pure_bind () fun _ => follow budget second).symm
  | cons event rest ih => rw [List.cons_append, follow, follow, ih, bind_assoc]

theorem under_ends (result : Except Error α) :
    (Story.ends result).under budget = ofResult result :=
  pure_bind () fun _ => ofResult result

theorem under_stepped (story : Story α) :
    story.stepped.under budget = tick budget >>= fun _ => story.under budget := by
  unfold Story.stepped Story.under
  rw [follow, bind_assoc]
  rfl

theorem under_andThen (story : Story α) (next : α → Story β) :
    (story.andThen next).under budget = story.under budget >>= fun a => (next a).under budget := by
  unfold Story.andThen Story.under
  rw [bind_assoc]
  cases story.result with
  | ok a =>
      dsimp only
      rw [follow_append, bind_assoc]
      rfl
  | error error => rfl

theorem applyFunction_eq_under (name : String) (args : List Value) :
    applyFunction ctx budget name args = (storyOfCall ctx name args).under budget := by
  unfold applyFunction storyOfCall
  cases Builtin.ofName? name with
  | some f => exact (under_ends (f.apply args)).symm
  | none =>
    cases ctx.hosts.get? name with
    | none => exact (under_ends (.error (.unknownFunction name))).symm
    | some host =>
      dsimp only
      rw [callHost_eq]
      unfold Story.under
      dsimp only [follow]
      rw [bind_pure]
      rfl

mutual

/-- An evaluation does what the story of the expression tells, as far as the budget lets it. -/
theorem eval_eq_under : ∀ e : Expr, eval ctx budget e = (story ctx e).under budget
  | .lit v => by
      rw [eval, story, under_stepped, under_ends]
      rfl
  | .list items => by
      rw [eval, story, under_stepped, under_andThen, evalAll_eq_under items]
      simp only [under_ends]
      rfl
  | .ident name => by
      rw [eval, story]
      cases ctx.vars.get? name with
      | some v =>
          rw [under_stepped, under_ends]
          rfl
      | none =>
          rw [under_stepped, under_ends]
          rfl
  | .index target position => by
      rw [eval, story, under_stepped, under_andThen, eval_eq_under target, eval_eq_under position]
      simp only [under_andThen, under_ends]
  | .member target field => by
      rw [eval, story, under_stepped, under_andThen, eval_eq_under target]
      simp only [under_ends]
  | .call name args => by
      rw [eval, story, under_stepped, under_andThen, evalAll_eq_under args]
      simp only [applyFunction_eq_under]
  | .unary op operand => by
      rw [eval, story, under_stepped, under_andThen, eval_eq_under operand]
      simp only [under_ends]
  | .binary op lhs rhs => by
      rw [eval, story, under_stepped, under_andThen, eval_eq_under lhs, eval_eq_under rhs]
      refine bind_congr fun _ => bind_congr fun a => ?_
      split
      · next hfalse =>
        rw [if_pos (.inl ⟨rfl, hfalse⟩), under_ends, hfalse]
        rfl
      · next htrue =>
        rw [if_pos (.inr ⟨rfl, htrue⟩), under_ends, htrue]
        rfl
      · next hand hor =>
        rw [if_neg ?_, under_andThen]
        · simp only [under_ends]
        · rintro (⟨rfl, hfalse⟩ | ⟨rfl, htrue⟩)
          · exact hand rfl hfalse
          · exact hor rfl htrue
  | .cond test yes no => by
      rw [eval, story, under_stepped, under_andThen, eval_eq_under test, eval_eq_under yes,
        eval_eq_under no]
      refine bind_congr fun _ => bind_congr fun v => ?_
      split <;> rfl

theorem evalAll_eq_under : ∀ items : List Expr,
    evalAll ctx budget items = (storyAll ctx items).under budget
  | [] => (under_ends (.ok [])).symm
  | e :: rest => by
      rw [evalAll, storyAll, under_andThen, eval_eq_under e, evalAll_eq_under rest]
      simp only [under_andThen, under_ends]
      rfl

end

/-! ## Host functions in stories -/

/-- The story calls no other host functions than these, and none that has the name of a function of
the language. -/
def Story.CallsOnly (names : List String) (story : Story α) : Prop :=
  ∀ made, .call made ∈ story.events → made.name ∈ names ∧ Builtin.ofName? made.name = none

variable {names others : List String}

theorem callsOnly_ends (result : Except Error α) : (Story.ends result).CallsOnly names := nofun

theorem Story.CallsOnly.mono {story : Story α} (h : story.CallsOnly names) (hsub : names ⊆ others) :
    story.CallsOnly others :=
  fun made hmade => ⟨hsub (h made hmade).1, (h made hmade).2⟩

theorem Story.CallsOnly.stepped {story : Story α} (h : story.CallsOnly names) :
    story.stepped.CallsOnly names := by
  intro made hmade
  rcases List.mem_cons.1 hmade with hstep | hmade
  · cases hstep
  · exact h made hmade

theorem Story.CallsOnly.andThen {story : Story α} {next : α → Story β}
    (h : story.CallsOnly names) (hnext : ∀ a, (next a).CallsOnly names) :
    (story.andThen next).CallsOnly names := by
  intro made hmade
  unfold Story.andThen at hmade
  cases hresult : story.result with
  | error error =>
      rw [hresult] at hmade
      exact h made hmade
  | ok a =>
      rw [hresult] at hmade
      rcases List.mem_append.1 hmade with hmade | hmade
      · exact h made hmade
      · exact hnext a made hmade

theorem callsOnly_storyOfCall {name : String} (hname : name ∈ names) (args : List Value) :
    (storyOfCall ctx name args).CallsOnly names := by
  unfold storyOfCall
  cases hbuiltin : Builtin.ofName? name with
  | some f => exact callsOnly_ends _
  | none =>
    cases ctx.hosts.get? name with
    | none => exact callsOnly_ends _
    | some host =>
      intro made hmade
      cases List.mem_singleton.1 hmade
      exact ⟨hname, hbuiltin⟩

mutual

theorem callsOnly_story : ∀ e : Expr, (story ctx e).CallsOnly e.callees
  | .lit v => by
      rw [story]
      exact (callsOnly_ends _).stepped
  | .list items => by
      rw [story]
      exact ((callsOnly_storyAll items).andThen fun _ => callsOnly_ends _).stepped
  | .ident name => by
      rw [story]
      split <;> exact (callsOnly_ends _).stepped
  | .index target position => by
      have htarget := (callsOnly_story target).mono (List.subset_append_left _ position.callees)
      have hposition := (callsOnly_story position).mono (List.subset_append_right target.callees _)
      rw [story]
      exact (htarget.andThen fun _ => hposition.andThen fun _ => callsOnly_ends _).stepped
  | .member target field => by
      rw [story]
      exact ((callsOnly_story target).andThen fun _ => callsOnly_ends _).stepped
  | .call name args => by
      have hargs := (callsOnly_storyAll args).mono (List.subset_cons_self name _)
      rw [story]
      exact (hargs.andThen (callsOnly_storyOfCall List.mem_cons_self)).stepped
  | .unary op operand => by
      rw [story]
      exact ((callsOnly_story operand).andThen fun _ => callsOnly_ends _).stepped
  | .binary op lhs rhs => by
      have hlhs := (callsOnly_story lhs).mono (List.subset_append_left _ rhs.callees)
      have hrhs := (callsOnly_story rhs).mono (List.subset_append_right lhs.callees _)
      rw [story]
      refine (hlhs.andThen fun a => ?_).stepped
      split
      · exact callsOnly_ends _
      · exact hrhs.andThen fun _ => callsOnly_ends _
  | .cond test yes no => by
      have htest := (callsOnly_story test).mono
        (List.subset_append_left _ (yes.callees ++ no.callees))
      have hyes := (callsOnly_story yes).mono (List.subset_append_left _ no.callees)
      have hno := (callsOnly_story no).mono (List.subset_append_right yes.callees _)
      rw [story]
      refine (htest.andThen fun v => Story.CallsOnly.mono ?_ (List.subset_append_right _ _)).stepped
      split
      · exact hyes
      · exact hno

theorem callsOnly_storyAll : ∀ items : List Expr, (storyAll ctx items).CallsOnly (calleesAll items)
  | [] => by
      rw [storyAll]
      exact callsOnly_ends _
  | e :: rest => by
      have he := (callsOnly_story e).mono (List.subset_append_left _ (calleesAll rest))
      have hrest := (callsOnly_storyAll rest).mono (List.subset_append_right e.callees _)
      rw [storyAll]
      exact he.andThen fun _ => hrest.andThen fun _ => callsOnly_ends _

end

theorem mem_calls_enact {event : Event} {made : HostCall}
    (h : made ∈ ((enact budget event).run t).2.calls) : made ∈ t.calls ∨ .call made = event := by
  cases event with
  | step =>
      change made ∈ ((tick budget).run t).2.calls at h
      rw [run_tick] at h
      exact .inl h
  | call other =>
      change made ∈ ((noteCall budget other).run t).2.calls at h
      rw [run_noteCall] at h
      unfold noted at h
      split_ifs at h
      · exact .inl h
      · exact .inl h
      all_goals
        rcases List.mem_append.1 h with hbefore | hsame
        · exact .inl hbefore
        · exact .inr (congrArg Event.call (List.mem_singleton.1 hsame))

/-- What each event keeps, all of them keep, however far the budget lets them come. -/
theorem follow_preserves {P : Trace → Prop} {events : List Event}
    (hevents : ∀ event ∈ events, ∀ t, P t → P ((enact budget event).run t).2) (h : P t) :
    P ((follow budget events).run t).2 := by
  induction events generalizing t with
  | nil => exact h
  | cons event rest ih =>
    have hevent := hevents event List.mem_cons_self t h
    rw [follow]
    cases hrun : (enact budget event).run t with
    | mk result middle =>
      rw [hrun] at hevent
      cases result with
      | error error =>
          rw [run_bind_of_error hrun]
          exact hevent
      | ok _ =>
          rw [run_bind_of_ok hrun]
          exact ih (fun later hlater => hevents later (List.mem_cons_of_mem _ hlater)) hevent

/-- What has been called at the end was called before or is told. -/
theorem mem_calls_follow {events : List Event} {made : HostCall}
    (h : made ∈ ((follow budget events).run t).2.calls) :
    made ∈ t.calls ∨ .call made ∈ events := by
  refine follow_preserves
    (P := fun u => made ∈ u.calls → made ∈ t.calls ∨ .call made ∈ events) ?_ .inl h
  intro event hevent u hu hmade
  rcases mem_calls_enact hmade with hbefore | hsame
  · exact hu hbefore
  · exact .inr (hsame ▸ hevent)

theorem state_under (story : Story α) (t : Trace) :
    ((story.under budget).run t).2 = ((follow budget story.events).run t).2 := by
  unfold Story.under
  cases hrun : (follow budget story.events).run t with
  | mk result after =>
    cases result with
    | error error => rw [run_bind_of_error hrun]
    | ok _ =>
        rw [run_bind_of_ok hrun]
        cases story.result <;> rfl

/-! ## Stories that nothing cuts short -/

/-- The clock never finds the time used up, and can tell when it will be. -/
structure TimeLimit.Idle (limit : TimeLimit) : Prop where
  unexpired : ∀ look, limit.expired look = false
  hasDeadline : limit.hasDeadline = true

theorem TimeLimit.idle_unlimited : unlimited.Idle := ⟨fun _ => rfl, rfl⟩

/-- The trace after what an event tells. -/
def Trace.told (t : Trace) : Event → Trace
  | .step => { t with steps := t.steps + 1 }
  | .call made => { t with calls := t.calls ++ [made] }

theorem steps_le_foldl (events : List Event) (t : Trace) :
    t.steps ≤ (events.foldl Trace.told t).steps := by
  induction events generalizing t with
  | nil => exact Nat.le_refl _
  | cons event rest ih =>
    have hevent : t.steps ≤ (t.told event).steps := by
      cases event with
      | step => exact Nat.le_succ _
      | call made => exact Nat.le_refl _
    exact Nat.le_trans hevent (ih _)

theorem run_enact_of_room (hidle : budget.time.Idle) {event : Event}
    (hroom : (t.told event).steps ≤ budget.maxSteps) :
    (enact budget event).run t = (.ok (), t.told event) := by
  cases event with
  | step =>
      change t.steps + 1 ≤ budget.maxSteps at hroom
      refine (run_tick budget t).trans ?_
      unfold ticked
      rw [if_neg (Nat.not_lt.2 hroom), hidle.unexpired, if_neg fun h => Bool.false_ne_true h.2]
      rfl
  | call made =>
      refine (run_noteCall budget made t).trans ?_
      unfold noted
      rw [hidle.unexpired, hidle.unexpired, hidle.hasDeadline]
      rfl

theorem run_follow_of_room (hidle : budget.time.Idle) {events : List Event}
    (hroom : (events.foldl Trace.told t).steps ≤ budget.maxSteps) :
    (follow budget events).run t = (.ok (), events.foldl Trace.told t) := by
  induction events generalizing t with
  | nil => rfl
  | cons event rest ih =>
    have hfirst := run_enact_of_room hidle (Nat.le_trans (steps_le_foldl rest (t.told event)) hroom)
    rw [follow, run_bind_of_ok hfirst]
    exact ih hroom

/-- If the clock stays idle and the steps told are within the limit, the whole story comes true. -/
theorem run_eval_of_room (hidle : budget.time.Idle) {e : Expr}
    (hroom : ((story ctx e).events.foldl Trace.told t).steps ≤ budget.maxSteps) :
    (eval ctx budget e).run t =
      ((story ctx e).result, (story ctx e).events.foldl Trace.told t) := by
  rw [eval_eq_under, Story.under, run_bind_of_ok (run_follow_of_room hidle hroom)]
  cases (story ctx e).result <;> rfl

/-! ## Time that is used up -/

/-- A clock that does not go back shows no end to the time that is used up. -/
theorem TimeLimit.expired_mono {limit : TimeLimit} (hclock : Monotone limit.shows)
    {look later : Nat} (hle : look ≤ later) (h : limit.expired look = true) :
    limit.expired later = true := by
  have hshown := hclock hle
  unfold expired at h ⊢
  rw [decide_eq_true_eq] at h ⊢
  omega

theorem enact_of_expired (h : budget.time.expired t.looks = true) (event : Event) :
    ((enact budget event).run t).2.calls = t.calls ∧
      t.looks ≤ ((enact budget event).run t).2.looks := by
  cases event with
  | step =>
      change ((tick budget).run t).2.calls = _ ∧ _ ≤ ((tick budget).run t).2.looks
      rw [run_tick]
      exact ⟨rfl, looks_stepped t ▸ Nat.le_add_right _ _⟩
  | call made =>
      change ((noteCall budget made).run t).2.calls = _ ∧ _ ≤ ((noteCall budget made).run t).2.looks
      rw [run_noteCall]
      unfold noted
      rw [if_pos h]
      exact ⟨rfl, Nat.le_refl _⟩

/-- Once the time is used up, no host function is called any more, whatever is told. -/
theorem calls_follow_of_expired (hclock : Monotone budget.time.shows) (events : List Event)
    (h : budget.time.expired t.looks = true) :
    ((follow budget events).run t).2.calls = t.calls := by
  refine (follow_preserves
    (P := fun u => budget.time.expired u.looks = true ∧ u.calls = t.calls) ?_ ⟨h, rfl⟩).2
  rintro event - u ⟨hexpired, hcalls⟩
  obtain ⟨hsame, hlooks⟩ := enact_of_expired hexpired event
  exact ⟨TimeLimit.expired_mono hclock hlooks hexpired, hsame.trans hcalls⟩

/-- Once the time is used up, by a clock that does not go back, an evaluation calls no host function
any more. -/
theorem calls_eval_of_expired (hclock : Monotone budget.time.shows) (e : Expr)
    (h : budget.time.expired t.looks = true) :
    ((eval ctx budget e).run t).2.calls = t.calls := by
  rw [eval_eq_under, state_under]
  exact calls_follow_of_expired hclock (story ctx e).events h

/-! ## The order in stories -/

theorem events_andThen_of_ok {story : Story α} {a : α} (h : story.result = .ok a)
    (next : α → Story β) : (story.andThen next).events = story.events ++ (next a).events := by
  unfold Story.andThen
  rw [h]

theorem result_andThen_eq_ok {story : Story α} {next : α → Story β} {b : β}
    (h : (story.andThen next).result = .ok b) :
    ∃ a, story.result = .ok a ∧ (next a).result = .ok b := by
  unfold Story.andThen at h
  cases hresult : story.result with
  | error error =>
      rw [hresult] at h
      cases h
  | ok a =>
      rw [hresult] at h
      exact ⟨a, rfl, h⟩

/-- Expressions that all have values are told in the order in which they are written. -/
theorem events_storyAll_of_ok {items : List Expr} {values : List Value}
    (h : (storyAll ctx items).result = .ok values) :
    (storyAll ctx items).events = items.flatMap fun item => (story ctx item).events := by
  induction items generalizing values with
  | nil =>
      rw [storyAll]
      rfl
  | cons e rest ih =>
      rw [storyAll] at h
      obtain ⟨v, hv, hrest⟩ := result_andThen_eq_ok h
      obtain ⟨vs, hvs, -⟩ := result_andThen_eq_ok hrest
      rw [storyAll, events_andThen_of_ok hv, events_andThen_of_ok hvs, ih hvs, List.flatMap_cons]
      exact congrArg _ (List.append_nil _)

/-- The parts of an expression are told as they are written, each behind those before it, and a part
that is passed over is not told. -/
structure InOrder (ctx : Context) : Prop where
  items : ∀ items values, (storyAll ctx items).result = .ok values →
    (story ctx (.list items)).events =
      .step :: items.flatMap fun item => (story ctx item).events
  arguments : ∀ name args values, (storyAll ctx args).result = .ok values →
    (story ctx (.call name args)).events =
      .step :: ((args.flatMap fun arg => (story ctx arg).events) ++
        (storyOfCall ctx name values).events)
  index : ∀ target position v, (story ctx target).result = .ok v →
    (story ctx (.index target position)).events =
      .step :: ((story ctx target).events ++ (story ctx position).events)
  operands : ∀ op lhs rhs v, (story ctx lhs).result = .ok v →
    (story ctx (.binary op lhs rhs)).events =
      .step :: ((story ctx lhs).events ++
        if Decided op v then [] else (story ctx rhs).events)
  branches : ∀ test yes no v, (story ctx test).result = .ok v →
    (story ctx (.cond test yes no)).events =
      .step :: ((story ctx test).events ++ (story ctx (if v.truthy then yes else no)).events)

theorem events_andThen_ends (story : Story α) (f : α → Except Error β) :
    (story.andThen fun a => .ends (f a)).events = story.events := by
  unfold Story.andThen
  cases story.result with
  | error error => rfl
  | ok a => exact List.append_nil _

theorem inOrder_story (ctx : Context) : InOrder ctx where
  items items values h := by
    rw [story, ← events_storyAll_of_ok h]
    exact congrArg _ (events_andThen_ends _ _)
  arguments name args values h := by
    rw [story, ← events_storyAll_of_ok h]
    exact congrArg _ (events_andThen_of_ok h _)
  index target position v h := by
    rw [story, ← events_andThen_ends (story ctx position) (elementAt v)]
    exact congrArg _ (events_andThen_of_ok h _)
  operands op lhs rhs v h := by
    have hrhs : (if Decided op v then Story.ends (.ok (.bool v.truthy)) else
        (story ctx rhs).andThen fun b => .ends (applyBinary op v b)).events =
          if Decided op v then [] else (story ctx rhs).events := by
      split
      · rfl
      · exact events_andThen_ends _ _
    rw [story, ← hrhs]
    exact congrArg _ (events_andThen_of_ok h _)
  branches test yes no v h := by
    rw [story, apply_ite (story ctx)]
    exact congrArg _ (events_andThen_of_ok h _)

/-! ## What an evaluation reads -/

/-- An evaluation reads only what the expression names.  Two contexts that agree on the variables
and functions that it names, apart from host functions that have the name of one of the language,
give the same value or failure, the same steps and the same calls with the same arguments, under
every budget and whatever its clock shows.  What is done is the story of the expression as far as
the budget lets it: the parts are told from left to right as they are written, nothing is told of a
branch that is passed over, and host functions of names of the language are not called. -/
theorem eval_reads_named (e : Expr) (ctx : Context) :
    (∀ ctx' : Context, ctx.Agree ctx' e.idents e.callees → ∀ budget : Budget,
      run ctx budget e = run ctx' budget e) ∧
    (∀ (budget : Budget) (t : Trace),
      (eval ctx budget e).run t = ((story ctx e).under budget).run t) ∧
    InOrder ctx ∧
    ∀ budget : Budget, ∀ made ∈ (run ctx budget e).2.calls,
      made.name ∈ e.callees ∧ Builtin.ofName? made.name = none := by
  refine ⟨?_, fun budget t => by rw [eval_eq_under], inOrder_story ctx, ?_⟩
  · intro ctx' hagree budget
    unfold run
    rw [eval_congr e hagree]
  · intro budget made hmade
    unfold run at hmade
    rw [eval_eq_under, state_under] at hmade
    rcases mem_calls_follow hmade with hbefore | htold
    · exact absurd hbefore List.not_mem_nil
    · exact callsOnly_story e made htold

/-- One context has a host function of the name of a function of the language, which is applied, and
the other has not. -/
theorem eval_reads_named_lengths :
    let hosts : NameMap HostFunction := ["f", "g"].map fun name => (name, fun _ => .ok (.str name))
    let ctx : Context := { vars := [("x", .str "on")], hosts }
    let other : Context :=
      { vars := [("x", .str "on"), ("y", .null)], hosts := hosts ++ [("len", fun _ => .ok .null)] }
    let e : Expr := .cond (.call "len" [.ident "x"])
      (.binary .or (.call "f" [.ident "x"]) (.call "g" [])) (.call "g" [])
    ctx.Agree other e.idents e.callees ∧
      run ctx { maxSteps := 9 } e = run other { maxSteps := 9 } e ∧
      (run other { maxSteps := 9 } e).2.calls.map HostCall.name = ["f"] := by
  intro hosts ctx other e
  have hagree : ctx.Agree other e.idents e.callees := by
    constructor
    · intro name hname
      have hx : name = "x" := by simpa [e, idents, identsAll] using hname
      subst hx
      rfl
    · intro name hname hlanguage
      have hcalled : name = "len" ∨ name = "f" ∨ name = "g" := by
        simpa [e, callees, calleesAll] using hname
      rcases hcalled with rfl | rfl | rfl
      · cases hlanguage
      · rfl
      · rfl
  exact ⟨hagree, (eval_reads_named e ctx).1 other hagree _, rfl⟩

end PanelBus.Expr
