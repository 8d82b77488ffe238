import PanelBus.Proofs.Expr.Containment
/-!
# Failures of reading

A source can fail at its text only while it is read.  Whatever an evaluation fails at, it is
something else, so where the engine keeps the trees of all sources that a computation evaluates, the
computation meets no failure of reading and leaves the engine as it is.
-/

namespace PanelBus.Expr

open Json (Value)

variable {α β : Type} {ctx : Context} {budget : Budget}

/-- The failure stands in the text of a source. -/
inductive Error.Unread : Error → Prop where
  | parse (position : Nat) (found : String) : Unread (.parse position found)
  | tooComplex (excess : Excess) : Unread (.tooComplex excess)

theorem Error.IsFault.not_unread {error : Error} (h : error.IsFault) : ¬error.Unread := by
  cases h <;> exact nofun

/-! ## Evaluations -/

/-- No failure of the computation stands in a text. -/
def Legible (m : EvalM α) : Prop := ∀ t error, (m.run t).1 = .error error → ¬error.Unread

theorem legible_pure (a : α) : Legible (pure a) := nofun

theorem legible_throw {error : Error} (h : ¬error.Unread) : Legible (throw error : EvalM α) := by
  intro t other hother
  rwa [← Except.error.inj hother]

theorem Legible.bind {m : EvalM α} {f : α → EvalM β} (h : Legible m) (hf : ∀ a, Legible (f a)) :
    Legible (m >>= f) := by
  intro t error hfails
  cases hrun : m.run t with
  | mk result middle =>
    cases result with
    | error first =>
        rw [run_bind_of_error hrun] at hfails
        rw [← Except.error.inj hfails]
        exact h t first (congrArg Prod.fst hrun)
    | ok a =>
        rw [run_bind_of_ok hrun] at hfails
        exact hf a middle error hfails

theorem legible_ofResult {result : Except Error α}
    (h : ∀ error, result = .error error → ¬error.Unread) : Legible (ofResult result) := by
  cases result with
  | ok a => exact legible_pure a
  | error error => exact legible_throw (h error rfl)

theorem Contained.legible {result : Except Error α} (h : Contained result) :
    Legible (ofResult result) := legible_ofResult fun error herror => (h error herror).not_unread

theorem legible_tick (budget : Budget) : Legible (tick budget) := by
  intro t error hfails
  rw [run_tick] at hfails
  unfold ticked at hfails
  dsimp only at hfails
  split_ifs at hfails
  all_goals
    rw [← Except.error.inj hfails]
    nofun

theorem legible_noteCall (budget : Budget) (call : HostCall) : Legible (noteCall budget call) := by
  intro t error hfails
  rw [run_noteCall] at hfails
  unfold noted at hfails
  split_ifs at hfails
  all_goals
    rw [← Except.error.inj hfails]
    nofun

theorem legible_callHost (budget : Budget) (name : String) (host : HostFunction)
    (args : List Value) : Legible (callHost budget name host args) := by
  unfold callHost
  refine (legible_noteCall budget _).bind fun _ => ?_
  split
  · exact legible_pure _
  · exact legible_throw nofun

theorem legible_applyFunction (name : String) (args : List Value) :
    Legible (applyFunction ctx budget name args) := by
  unfold applyFunction
  split
  · exact (Builtin.contained_apply _ _).legible
  · split
    · exact legible_callHost budget _ _ _
    · exact legible_throw nofun

theorem legible_applyBinary (op : BinaryOp) (a b : Value) :
    Legible (ofResult (applyBinary op a b)) := by
  by_cases hpair : op = .div ∧ a = .int Word.least ∧ b = .int (-1)
  · rw [(applyBinary_eq_breakdown_iff op a b).2 hpair]
    exact legible_throw nofun
  · exact (contained_applyBinary op hpair).legible

mutual

theorem legible_eval : ∀ e : Expr, Legible (eval ctx budget e)
  | .lit v => by
      rw [eval]
      exact (legible_tick budget).bind fun _ => legible_pure v
  | .list items => by
      rw [eval]
      exact (legible_tick budget).bind fun _ => (legible_evalAll items).bind fun _ => legible_pure _
  | .ident name => by
      rw [eval]
      refine (legible_tick budget).bind fun _ => ?_
      split
      · exact legible_pure _
      · exact legible_throw nofun
  | .index target position => by
      rw [eval]
      exact (legible_tick budget).bind fun _ => (legible_eval target).bind fun t =>
        (legible_eval position).bind fun p => (contained_elementAt t p).legible
  | .member target field => by
      rw [eval]
      exact (legible_tick budget).bind fun _ => (legible_eval target).bind fun t =>
        (contained_fieldOf t field).legible
  | .call name args => by
      rw [eval]
      exact (legible_tick budget).bind fun _ => (legible_evalAll args).bind fun vs =>
        legible_applyFunction name vs
  | .unary op operand => by
      rw [eval]
      exact (legible_tick budget).bind fun _ => (legible_eval operand).bind fun v =>
        (contained_applyUnary op v).legible
  | .binary op lhs rhs => by
      rw [eval]
      refine (legible_tick budget).bind fun _ => (legible_eval lhs).bind fun a => ?_
      split
      · exact legible_pure _
      · exact legible_pure _
      · exact (legible_eval rhs).bind fun b => legible_applyBinary _ a b
  | .cond test yes no => by
      rw [eval]
      refine (legible_tick budget).bind fun _ => (legible_eval test).bind fun v => ?_
      split
      · exact legible_eval yes
      · exact legible_eval no

theorem legible_evalAll : ∀ items : List Expr, Legible (evalAll ctx budget items)
  | [] => legible_pure []
  | e :: rest => by
      rw [evalAll]
      exact (legible_eval e).bind fun _ => (legible_evalAll rest).bind fun _ => legible_pure _

end

/-! ## Engines that keep trees -/

/-- The engine keeps a tree of the source. -/
def Engine.Keeps (engine : Engine) (source : String) : Prop :=
  ∃ e, engine.cache.get? source = some e

/-- Whatever the one engine keeps, the other keeps as well. -/
def Engine.Grown (engine later : Engine) : Prop :=
  ∀ source, engine.Keeps source → later.Keeps source

namespace Engine

variable {engine middle later : Engine} {source : String}

theorem grown_refl (engine : Engine) : engine.Grown engine := fun _ h => h

theorem Grown.trans (h : engine.Grown middle) (hlater : middle.Grown later) :
    engine.Grown later := fun source hsource => hlater source (h source hsource)

theorem Keeps.compile_eq (h : engine.Keeps source) :
    ∃ e, engine.compile source = (.ok e, engine) := by
  obtain ⟨e, he⟩ := h
  refine ⟨e, ?_⟩
  unfold compile
  rw [he]

theorem grown_compile (engine : Engine) (source : String) :
    engine.Grown (engine.compile source).2 := by
  intro other hother
  unfold compile
  split
  · exact hother
  · split
    · next e hread =>
      by_cases hsame : other = source
      · subst hsame
        exact ⟨e, NameMap.get?_insert_self _ _ _⟩
      · obtain ⟨tree, htree⟩ := hother
        exact ⟨tree, (NameMap.get?_insert_of_ne _ _ hsame).trans htree⟩
    · exact hother

/-- A source that is read is kept. -/
theorem keeps_of_compile {e : Expr} (h : (engine.compile source).1 = .ok e) :
    (engine.compile source).2.Keeps source := by
  unfold compile at h ⊢
  split
  · next tree htree => exact ⟨tree, htree⟩
  · next hnew =>
    rw [hnew] at h
    dsimp only at h
    split
    · next tree hread => exact ⟨tree, NameMap.get?_insert_self _ _ _⟩
    · next error hread =>
      rw [hread] at h
      cases h

end Engine

/-! ## Computations that read nothing -/

/-- In every session with that engine the computation leaves the engine as it is, and adds no
failure that stands in a text. -/
def ReadsNothing (engine : Engine) (m : SessionM α) : Prop :=
  ∀ session : Session, session.engine = engine →
    (m.run session).2.engine = engine ∧
      ∃ met, (m.run session).2.failures = met ++ session.failures ∧
        ∀ failure ∈ met, ¬failure.error.Unread

variable {engine : Engine}

theorem readsNothing_pure (a : α) : ReadsNothing engine (pure a) :=
  fun _ hengine => ⟨hengine, [], rfl, nofun⟩

/-- What follows need only read nothing after results that there can be. -/
theorem ReadsNothing.bind_of {m : SessionM α} {f : α → SessionM β}
    (h : ReadsNothing engine m) (P : α → Prop) (hP : ∀ session, P (m.run session).1)
    (hf : ∀ a, P a → ReadsNothing engine (f a)) : ReadsNothing engine (m >>= f) := by
  intro session hengine
  obtain ⟨hmiddle, met, hmet, hlegible⟩ := h session hengine
  obtain ⟨hafter, more, hmore, hothers⟩ :=
    hf (m.run session).1 (hP session) (m.run session).2 hmiddle
  have hrun : (m >>= f).run session = (f (m.run session).1).run (m.run session).2 :=
    StateT.run_bind _ _ _
  rw [hrun]
  refine ⟨hafter, more ++ met, ?_, List.forall_mem_append.2 ⟨hothers, hlegible⟩⟩
  rw [hmore, hmet, List.append_assoc]

theorem ReadsNothing.bind {m : SessionM α} {f : α → SessionM β} (h : ReadsNothing engine m)
    (hf : ∀ a, ReadsNothing engine (f a)) : ReadsNothing engine (m >>= f) :=
  h.bind_of (fun _ => True) (fun _ => trivial) fun a _ => hf a

variable {source : String}

theorem readsNothing_evaluate (h : engine.Keeps source) (ctx : Context) :
    ReadsNothing engine (evaluate source ctx) := by
  intro session hengine
  obtain ⟨e, hkept⟩ := h.compile_eq
  rw [← hengine] at hkept
  have htree : (session.engine.compile source).1 = .ok e := congrArg Prod.fst hkept
  have hsame : (session.engine.compile source).2 = session.engine := congrArg Prod.snd hkept
  rw [run_evaluate_of_ok htree, hsame]
  refine ⟨hengine, _, rfl, ?_⟩
  have hlegible : Legible (eval ctx session.engine.budget e) := legible_eval e
  unfold Failure.ofResult run
  split
  · exact nofun
  · next error herror =>
    intro failure hfailure
    obtain rfl := List.mem_singleton.1 hfailure
    exact hlegible {} error herror

theorem readsNothing_evalGuard (h : engine.Keeps source) (ctx : Context) :
    ReadsNothing engine (evalGuard source ctx) := by
  refine (readsNothing_evaluate h ctx).bind fun result => ?_
  cases result <;> exact readsNothing_pure _

theorem readsNothing_evalValue? (h : engine.Keeps source) (ctx : Context) :
    ReadsNothing engine (evalValue? source ctx) := by
  refine (readsNothing_evaluate h ctx).bind fun result => ?_
  cases result with
  | error error => exact readsNothing_pure _
  | ok v => cases v <;> exact readsNothing_pure _

end PanelBus.Expr
