import PanelBus.Proofs.Expr.Evaluation
/-!
# Failures stay inside

A guard that fails is false and a value that fails is absent.  All that leaves an evaluation is the
breakdown of one division, or of a call under a deadline that the clock cannot tell; arithmetic on
words is exact everywhere else.
-/

namespace PanelBus.Expr

open Json (Value)

variable {source : String} {ctx : Context} {session : Session}

theorem parse_ne_breakdown (source : String) : parse source ≠ .error .breakdown := by
  unfold parse
  dsimp only
  split
  · nofun
  · split
    · nofun
    · split <;> nofun

theorem Engine.compile_ne_breakdown (engine : Engine) (source : String) :
    (engine.compile source).1 ≠ .error .breakdown := by
  unfold compile
  split
  · nofun
  · have hparse := parse_ne_breakdown source
    split
    · nofun
    · next error herror =>
      rw [herror] at hparse
      exact fun h => hparse (congrArg Except.error (Except.error.inj h))

theorem Engine.budget_compile (engine : Engine) (source : String) :
    (engine.compile source).2.budget = engine.budget := by
  unfold compile
  split
  · rfl
  · split <;> rfl

theorem run_compile (source : String) (session : Session) :
    (compile source).run session = ((session.engine.compile source).1,
      { session with engine := (session.engine.compile source).2 }) := rfl

/-- The result is a breakdown. -/
def breaksOff (result : Except Error Value) : Bool :=
  match result with
  | .error .breakdown => true
  | _ => false

theorem breaksOff_iff (result : Except Error Value) :
    breaksOff result = true ↔ result = .error .breakdown := by
  unfold breaksOff
  split
  · exact iff_of_true rfl rfl
  · next hother => exact iff_of_false Bool.false_ne_true hother

theorem run_evaluate_of_error {error : Error}
    (h : (session.engine.compile source).1 = .error error) :
    (evaluate source ctx).run session =
      (.error error,
        { session with
          engine := (session.engine.compile source).2
          failures := ⟨source, error⟩ :: session.failures }) := by
  unfold evaluate
  rw [StateT.run_bind, run_compile, h]
  rfl

theorem run_evaluate_of_ok {e : Expr} (h : (session.engine.compile source).1 = .ok e) :
    (evaluate source ctx).run session =
      ((run ctx session.engine.budget e).1,
        { engine := (session.engine.compile source).2
          calls := session.calls ++ (run ctx session.engine.budget e).2.calls
          failures :=
            Failure.ofResult source (run ctx session.engine.budget e).1 ++ session.failures
          broken := session.broken || breaksOff (run ctx session.engine.budget e).1 }) := by
  unfold evaluate
  rw [StateT.run_bind, run_compile, h, ← session.engine.budget_compile source]
  rfl

/-- A session breaks off with an evaluation, and stays so. -/
theorem broken_evaluate_iff (source : String) (ctx : Context) (session : Session) :
    ((evaluate source ctx).run session).2.broken = true ↔
      session.broken = true ∨ ((evaluate source ctx).run session).1 = .error .breakdown := by
  cases hcompiled : (session.engine.compile source).1 with
  | error error =>
      have hother := session.engine.compile_ne_breakdown source
      rw [hcompiled] at hother
      rw [run_evaluate_of_error hcompiled, or_iff_left]
      exact fun h => hother (congrArg Except.error (Except.error.inj h))
  | ok e => rw [run_evaluate_of_ok hcompiled, Bool.or_eq_true, breaksOff_iff]

theorem evaluate_eq_breakdown_iff (source : String) (ctx : Context) (session : Session) :
    ((evaluate source ctx).run session).1 = .error .breakdown ↔
      ∃ e, (session.engine.compile source).1 = .ok e ∧
        (MeetsLeast ctx session.engine.budget e {} ∨
          MeetsUndated ctx session.engine.budget e {}) := by
  cases hcompiled : (session.engine.compile source).1 with
  | error error =>
      have hother := session.engine.compile_ne_breakdown source
      rw [hcompiled] at hother
      rw [run_evaluate_of_error hcompiled]
      refine iff_of_false (fun h => hother (congrArg Except.error (Except.error.inj h))) ?_
      rintro ⟨e, he, _⟩
      cases he
  | ok e =>
      rw [run_evaluate_of_ok hcompiled]
      refine (breaks_iff_meets e {}).trans ⟨fun h => ⟨e, rfl, h⟩, ?_⟩
      rintro ⟨_, he, h⟩
      cases he
      exact h

theorem run_evalGuard (source : String) (ctx : Context) (session : Session) :
    (evalGuard source ctx).run session =
      (match ((evaluate source ctx).run session).1 with
        | .ok v => v.truthy
        | .error _ => false, ((evaluate source ctx).run session).2) := by
  unfold evalGuard
  rw [StateT.run_bind]
  generalize (evaluate source ctx).run session = evaluated
  obtain ⟨result, after⟩ := evaluated
  cases result <;> rfl

theorem run_evalValue? (source : String) (ctx : Context) (session : Session) :
    (evalValue? source ctx).run session =
      (match ((evaluate source ctx).run session).1 with
        | .ok .null => none
        | .ok v => some v
        | .error _ => none, ((evaluate source ctx).run session).2) := by
  unfold evalValue?
  rw [StateT.run_bind]
  generalize (evaluate source ctx).run session = evaluated
  obtain ⟨result, after⟩ := evaluated
  cases result with
  | error error => rfl
  | ok v => cases v <;> rfl

theorem evalGuard_eq_true_iff (source : String) (ctx : Context) (session : Session) :
    ((evalGuard source ctx).run session).1 = true ↔
      ∃ v, ((evaluate source ctx).run session).1 = .ok v ∧ v.truthy = true := by
  rw [run_evalGuard]
  cases ((evaluate source ctx).run session).1 with
  | error error => exact iff_of_false Bool.false_ne_true nofun
  | ok v =>
      constructor
      · exact fun h => ⟨v, rfl, h⟩
      · rintro ⟨_, hok, h⟩
        cases hok
        exact h

theorem evalValue?_eq_some_iff (source : String) (ctx : Context) (session : Session) (v : Value) :
    ((evalValue? source ctx).run session).1 = some v ↔
      ((evaluate source ctx).run session).1 = .ok v ∧ v ≠ .null := by
  rw [run_evalValue?]
  cases ((evaluate source ctx).run session).1 with
  | error error => exact iff_of_false nofun nofun
  | ok result =>
      cases result with
      | null =>
          refine iff_of_false nofun ?_
          rintro ⟨hok, hnull⟩
          cases hok
          exact hnull rfl
      | bool b | num n | str s | arr items | obj entries =>
          constructor
          · intro h
            obtain rfl := Option.some.inj h
            exact ⟨rfl, nofun⟩
          · rintro ⟨hok, _⟩
            cases hok
            rfl

/-! ## Arithmetic in expressions -/

variable {budget : Budget} {t middle between after : Trace}

theorem run_binary {op : Arithmetic} {lhs rhs : Expr} {a b : Value}
    (htick : (tick budget).run t = (.ok (), middle))
    (hlhs : (eval ctx budget lhs).run middle = (.ok a, between))
    (hrhs : (eval ctx budget rhs).run between = (.ok b, after)) :
    ((eval ctx budget (.binary op.op lhs rhs)).run t).1 = applyBinary op.op a b := by
  have hopen : ¬Decided op.op a := by
    rintro (⟨hop, _⟩ | ⟨hop, _⟩) <;> cases op <;> cases hop
  rw [eval_binary_of_not_decided htick hlhs hopen, run_bind_of_ok hrhs]
  cases applyBinary op.op a b <;> rfl

theorem run_neg {operand : Expr} {v : Value} (htick : (tick budget).run t = (.ok (), middle))
    (hoperand : (eval ctx budget operand).run middle = (.ok v, after)) :
    ((eval ctx budget (.unary .neg operand)).run t).1 = applyUnary .neg v := by
  rw [eval, run_bind_of_ok htick, run_bind_of_ok hoperand]
  cases applyUnary .neg v <;> rfl

theorem run_abs {arg : Expr} {v : Value} (htick : (tick budget).run t = (.ok (), middle))
    (harg : (eval ctx budget arg).run middle = (.ok v, after)) :
    ((eval ctx budget (.call Builtin.abs.name [arg])).run t).1 = Builtin.abs.apply [v] := by
  have hargs : (evalAll ctx budget [arg]).run middle = (.ok [v], after) := by
    rw [evalAll, run_bind_of_ok harg]
    rfl
  rw [eval, run_bind_of_ok htick, run_bind_of_ok hargs]
  change ((ofResult (Builtin.abs.apply [v]) : EvalM Value).run after).1 = _
  cases Builtin.abs.apply [v] <;> rfl

theorem applyUnary_neg_int {n : Int} (hn : Word.holds n = true) :
    applyUnary .neg (.int n) = wordOr .overflow (-n) := by
  unfold applyUnary
  rw [number_int hn]
  rfl

theorem apply_abs_int {n : Int} (hn : Word.holds n = true) :
    Builtin.abs.apply [.int n] = wordOr .overflow |n| := by
  rw [Int.abs_eq_natAbs]
  simp only [Builtin.apply, Builtin.oneArgument, Except.bind, bind, number_int hn]

/-- Under every budget and whatever the clock shows, evaluations break off only at the division of
the least word by `-1`, and at a call before the time is used up whose deadline the clock cannot
tell.  Short of that every guard has a truth value and every value is there or not, and arithmetic
on words answers exactly or fails. -/
theorem failures_contained (ctx : Context) (budget : Budget) (e : Expr) (source : String)
    (session : Session) :
    ((run ctx budget e).1 = .error .breakdown ↔
      MeetsLeast ctx budget e {} ∨ MeetsUndated ctx budget e {}) ∧
    (((evalGuard source ctx).run session).1 = true ↔
      ∃ v, ((evaluate source ctx).run session).1 = .ok v ∧ v.truthy = true) ∧
    (∀ v, ((evalValue? source ctx).run session).1 = some v ↔
      ((evaluate source ctx).run session).1 = .ok v ∧ v ≠ .null) ∧
    (∀ after ∈ [((evalGuard source ctx).run session).2, ((evalValue? source ctx).run session).2],
      (after.broken = true ↔ session.broken = true ∨
        ∃ tree, (session.engine.compile source).1 = .ok tree ∧
          (MeetsLeast ctx session.engine.budget tree {} ∨
            MeetsUndated ctx session.engine.budget tree {}))) ∧
    (∀ (op : Arithmetic) (lhs rhs : Expr) (m n : Int) (t middle between after : Trace),
      (tick budget).run t = (.ok (), middle) →
      (eval ctx budget lhs).run middle = (.ok (.int m), between) →
      (eval ctx budget rhs).run between = (.ok (.int n), after) →
      Word.holds m = true → Word.holds n = true → ¬(op = .div ∧ m = Word.least ∧ n = -1) →
      op.Answers m n ((eval ctx budget (.binary op.op lhs rhs)).run t).1) ∧
    (∀ (operand : Expr) (n : Int) (t middle after : Trace),
      (tick budget).run t = (.ok (), middle) →
      (eval ctx budget operand).run middle = (.ok (.int n), after) → Word.holds n = true →
      ((eval ctx budget (.unary .neg operand)).run t).1 =
          (if Word.holds (-n) then .ok (.int (-n)) else .error (.arithmetic .overflow)) ∧
        ((eval ctx budget (.call Builtin.abs.name [operand])).run t).1 =
          (if Word.holds |n| then .ok (.int |n|) else .error (.arithmetic .overflow))) := by
  refine ⟨breaks_iff_meets e {}, evalGuard_eq_true_iff _ _ _, evalValue?_eq_some_iff _ _ _,
    ?_, ?_, ?_⟩
  · intro after hafter
    have hsame : after = ((evaluate source ctx).run session).2 := by
      rw [run_evalGuard, run_evalValue?] at hafter
      simpa using hafter
    rw [hsame, broken_evaluate_iff, evaluate_eq_breakdown_iff]
  · intro op lhs rhs m n t middle between after htick hlhs hrhs hm hn hpair
    rw [run_binary htick hlhs hrhs, applyBinary_int op hm hn]
    exact Arithmetic.answers_onWords op hm hn hpair
  · intro operand n t middle after htick hoperand hn
    rw [run_neg htick hoperand, run_abs htick hoperand, applyUnary_neg_int hn, apply_abs_int hn]
    exact ⟨rfl, rfl⟩

/-- The quotient of `7` and `2` is no whole number. -/
theorem failures_contained_quotient :
    Word.holds 7 = true ∧ Word.holds 2 = true ∧
      Arithmetic.div.Answers 7 2 (run {} {} (.binary .div (.lit (.int 7)) (.lit (.int 2)))).1 := by
  have hwords := failures_contained {} {} (.lit (.int 7)) "7" {}
  refine ⟨by decide, by decide, ?_⟩
  exact hwords.2.2.2.2.1 .div (.lit (.int 7)) (.lit (.int 2)) 7 2 {} { steps := 1 } { steps := 2 }
    { steps := 3 } rfl rfl rfl (by decide) (by decide) fun h => absurd h.2.2 (by decide)

/-- A guard may break off. -/
theorem guard_breaks_off :
    ∃ e, parse "(-9223372036854775807 - 1) / -1" = .ok e ∧
      (run {} {} e).1 = .error .breakdown ∧
      ((evalGuard "(-9223372036854775807 - 1) / -1" {}).run {}).2.broken = true :=
  ⟨_, rfl, rfl, rfl⟩

-- The longest timeout: no clock that counts its seconds in signed words can tell the deadline.
example : (run { hosts := [("beep", fun _ => .ok .null)] }
    { time := { timeout := Word.count * 1000000000 - 1 } } (.call "beep" [])).1 =
      .error .breakdown := rfl

end PanelBus.Expr
