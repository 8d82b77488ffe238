import PanelBus.Proofs.Expr.Containment
import PanelBus.Proofs.Expr.Size
/-!
# Steps of evaluations

An evaluation enters each part of its tree at most once and takes a step there.  The limit on steps
can only cut it short: under two limits its course is the same up to where the lower one ends it.
-/

namespace PanelBus.Expr

open Json (Value)

variable {α β : Type} {ctx : Context} {time : TimeLimit} {n k : Nat}

/-- The computation, given for every limit on steps, takes at most `n` steps.  It does not end at a
limit that leaves it so many, and a limit at which it does not end may as well be higher. -/
structure Metered (n : Nat) (m : Nat → EvalM α) : Prop where
  steps_le : ∀ limit t, ((m limit).run t).2.steps ≤ t.steps + n
  enough : ∀ limit t, t.steps + n ≤ limit → ∀ k, ((m limit).run t).1 ≠ .error (.stepLimit k)
  higher : ∀ limit t more, limit ≤ more →
    (m limit).run t = (m more).run t ∨ ((m limit).run t).1 = .error (.stepLimit limit)

theorem Metered.mono {m : Nat → EvalM α} (h : Metered n m) (hle : n ≤ k) : Metered k m where
  steps_le := fun limit t => Nat.le_trans (h.steps_le limit t) (Nat.add_le_add_left hle _)
  enough := fun limit t hroom => h.enough limit t (Nat.le_trans (Nat.add_le_add_left hle _) hroom)
  higher := h.higher

/-- A computation that takes no step and knows no limit. -/
theorem metered_const {m : EvalM α} (hsteps : ∀ t, (m.run t).2.steps = t.steps)
    (hlimit : ∀ t k, (m.run t).1 ≠ .error (.stepLimit k)) : Metered 0 fun _ => m where
  steps_le := fun _ t => Nat.le_of_eq (hsteps t)
  enough := fun _ t _ k => hlimit t k
  higher := fun _ _ _ _ => .inl rfl

theorem metered_pure (a : α) : Metered 0 fun _ => pure a := metered_const (fun _ => rfl) nofun

theorem metered_throw {error : Error} (h : ∀ k, error ≠ .stepLimit k) :
    Metered 0 fun _ => (throw error : EvalM α) :=
  metered_const (fun _ => rfl) fun _ k hlimit => h k (Except.error.inj hlimit)

theorem metered_ofResult {result : Except Error α}
    (h : ∀ k, result ≠ .error (.stepLimit k)) : Metered 0 fun _ => ofResult result := by
  cases result with
  | ok a => exact metered_pure a
  | error error => exact metered_throw fun k hlimit => h k (congrArg Except.error hlimit)

theorem Contained.metered {result : Except Error α} (h : Contained result) :
    Metered 0 fun _ => ofResult result := by
  apply metered_ofResult
  intro k hlimit
  cases h _ hlimit

theorem Metered.bind {m : Nat → EvalM α} {f : Nat → α → EvalM β} (h : Metered n m)
    (hf : ∀ a, Metered k fun limit => f limit a) :
    Metered (n + k) fun limit => m limit >>= f limit where
  steps_le := by
    intro limit t
    have hsteps := h.steps_le limit t
    cases hrun : (m limit).run t with
    | mk result middle =>
      rw [hrun] at hsteps
      cases result with
      | error error =>
          rw [run_bind_of_error hrun]
          dsimp only at hsteps ⊢
          omega
      | ok a =>
          rw [run_bind_of_ok hrun]
          have hrest := (hf a).steps_le limit middle
          dsimp only at hsteps hrest ⊢
          omega
  enough := by
    intro limit t hroom
    have hsteps := h.steps_le limit t
    have hfirst := h.enough limit t (by omega)
    cases hrun : (m limit).run t with
    | mk result middle =>
      rw [hrun] at hsteps hfirst
      cases result with
      | error error =>
          rw [run_bind_of_error hrun]
          exact fun j hlimit => hfirst j (congrArg Except.error (Except.error.inj hlimit))
      | ok a =>
          rw [run_bind_of_ok hrun]
          dsimp only at hsteps
          exact (hf a).enough limit middle (by omega)
  higher := by
    intro limit t more hmore
    cases hrun : (m limit).run t with
    | mk result middle =>
      rcases h.higher limit t more hmore with hsame | hlimit
      · have hother := hsame.symm.trans hrun
        cases result with
        | error error =>
            rw [run_bind_of_error hrun, run_bind_of_error hother]
            exact .inl rfl
        | ok a =>
            rw [run_bind_of_ok hrun, run_bind_of_ok hother]
            exact (hf a).higher limit middle more hmore
      · rw [hrun] at hlimit
        obtain rfl : result = .error (.stepLimit limit) := hlimit
        rw [run_bind_of_error hrun]
        exact .inr rfl

/-! ## The parts of an evaluation -/

theorem metered_tick : Metered 1 fun limit => tick { maxSteps := limit, time } where
  steps_le := fun limit t => by rw [run_tick]
  enough := by
    intro limit t hroom k
    rw [run_tick]
    unfold ticked
    dsimp only
    rw [if_neg (Nat.not_lt.2 hroom)]
    split <;> nofun
  higher := by
    intro limit t more hmore
    rw [run_tick, run_tick]
    unfold ticked
    dsimp only
    by_cases hlimit : limit < t.steps + 1
    · rw [if_pos hlimit]
      exact .inr rfl
    · rw [if_neg hlimit, if_neg (by omega : ¬more < t.steps + 1)]
      exact .inl rfl

theorem metered_noteCall (call : HostCall) :
    Metered 0 fun limit => noteCall { maxSteps := limit, time } call where
  steps_le := by
    intro limit t
    rw [run_noteCall]
    unfold noted
    split_ifs <;> exact Nat.le_refl _
  enough := by
    intro limit t _ k
    rw [run_noteCall]
    unfold noted
    split_ifs <;> nofun
  higher := fun limit t more _ => .inl ((run_noteCall ..).trans (run_noteCall ..).symm)

theorem metered_callHost (name : String) (host : HostFunction) (args : List Value) :
    Metered 0 fun limit => callHost { maxSteps := limit, time } name host args := by
  unfold callHost
  refine (metered_noteCall _).bind (k := 0) fun _ => ?_
  split
  · exact metered_pure _
  · exact metered_throw nofun

theorem metered_applyFunction (name : String) (args : List Value) :
    Metered 0 fun limit => applyFunction ctx { maxSteps := limit, time } name args := by
  unfold applyFunction
  split
  · exact (Builtin.contained_apply _ _).metered
  · split
    · exact metered_callHost _ _ _
    · exact metered_throw nofun

theorem metered_applyBinary (op : BinaryOp) (a b : Value) :
    Metered 0 fun _ => ofResult (applyBinary op a b) := by
  by_cases hpair : op = .div ∧ a = .int Word.least ∧ b = .int (-1)
  · rw [(applyBinary_eq_breakdown_iff op a b).2 hpair]
    exact metered_throw nofun
  · exact (contained_applyBinary op hpair).metered

mutual

theorem metered_eval : ∀ e : Expr,
    Metered e.nodes fun limit => eval ctx { maxSteps := limit, time } e
  | .lit v => by
      simp only [eval, nodes]
      exact metered_tick.bind fun _ => metered_pure v
  | .list items => by
      simp only [eval, nodes]
      exact metered_tick.bind fun _ => (metered_evalAll items).bind fun _ => metered_pure _
  | .ident name => by
      simp only [eval, nodes]
      refine metered_tick.bind (k := 0) fun _ => ?_
      split
      · exact metered_pure _
      · exact metered_throw nofun
  | .index target position => by
      simp only [eval, nodes, Nat.add_assoc]
      exact metered_tick.bind fun _ => (metered_eval target).bind fun t =>
        (metered_eval position).bind fun p => (contained_elementAt t p).metered
  | .member target field => by
      simp only [eval, nodes]
      exact metered_tick.bind fun _ => (metered_eval target).bind fun t =>
        (contained_fieldOf t field).metered
  | .call name args => by
      simp only [eval, nodes]
      exact metered_tick.bind fun _ => (metered_evalAll args).bind fun vs =>
        metered_applyFunction name vs
  | .unary op operand => by
      simp only [eval, nodes]
      exact metered_tick.bind fun _ => (metered_eval operand).bind fun v =>
        (contained_applyUnary op v).metered
  | .binary op lhs rhs => by
      simp only [eval, nodes, Nat.add_assoc]
      refine metered_tick.bind fun _ => (metered_eval lhs).bind fun a => ?_
      split
      · exact (metered_pure _).mono (Nat.zero_le _)
      · exact (metered_pure _).mono (Nat.zero_le _)
      · exact (metered_eval rhs).bind fun b => metered_applyBinary _ a b
  | .cond test yes no => by
      simp only [eval, nodes, Nat.add_assoc]
      refine metered_tick.bind fun _ => (metered_eval test).bind fun v => ?_
      split
      · exact (metered_eval yes).mono (Nat.le_add_right _ _)
      · exact (metered_eval no).mono (Nat.le_add_left _ _)

theorem metered_evalAll : ∀ items : List Expr,
    Metered (nodesAll items) fun limit => evalAll ctx { maxSteps := limit, time } items
  | [] => metered_pure []
  | e :: rest => by
      simp only [evalAll, nodesAll]
      exact (metered_eval e).bind fun _ => (metered_evalAll rest).bind fun _ => metered_pure _

end

/-! ## Limits on steps -/

/-- The result tells that the limit on steps was passed. -/
def PassesLimit (result : Except Error Value) : Prop := ∃ limit, result = .error (.stepLimit limit)

theorem run_of_higher (budget : Budget) (e : Expr) {more : Nat} (hmore : budget.maxSteps ≤ more) :
    run ctx budget e = run ctx { budget with maxSteps := more } e ∨
      (run ctx budget e).1 = .error (.stepLimit budget.maxSteps) :=
  (metered_eval e).higher budget.maxSteps {} more hmore

/-- A source that was read has a tree with no more parts than octets, and an evaluation takes a step
for each of its parts at most, so a limit that is not below the size of the source is never passed.
Raising a limit that was not passed changes neither the result nor the calls, and lowering it can
only make the evaluation pass it. -/
theorem steps_within_limits {source : String} {e : Expr} (h : parse source = .ok e)
    (ctx : Context) :
    e.nodes ≤ source.utf8ByteSize ∧ source.utf8ByteSize ≤ 2048 ∧
    (∀ budget : Budget, source.utf8ByteSize ≤ budget.maxSteps →
      ¬PassesLimit (run ctx budget e).1) ∧
    (∀ time : TimeLimit, ¬PassesLimit (run ctx { time } e).1) ∧
    ∀ (tree : Expr) (budget : Budget),
      (∀ t, ((eval ctx budget tree).run t).2.steps ≤ t.steps + tree.nodes) ∧
      (¬PassesLimit (run ctx budget tree).1 → ∀ more, budget.maxSteps ≤ more →
        run ctx { budget with maxSteps := more } tree = run ctx budget tree) ∧
      ∀ fewer, fewer ≤ budget.maxSteps →
        run ctx { budget with maxSteps := fewer } tree = run ctx budget tree ∨
          (run ctx { budget with maxSteps := fewer } tree).1 = .error (.stepLimit fewer) := by
  obtain ⟨hnodes, hsize⟩ := nodes_le_of_parse h
  have hwithin : ∀ budget : Budget, source.utf8ByteSize ≤ budget.maxSteps →
      ¬PassesLimit (run ctx budget e).1 := by
    rintro budget hroom ⟨limit, hpassed⟩
    have hsteps : 0 + e.nodes ≤ budget.maxSteps := by omega
    exact (metered_eval e).enough budget.maxSteps {} hsteps limit hpassed
  have hdefault : source.utf8ByteSize ≤ 10000 := Nat.le_trans hsize (by decide)
  refine ⟨hnodes, hsize, hwithin, fun time => hwithin { time } hdefault, ?_⟩
  intro tree budget
  refine ⟨(metered_eval tree).steps_le budget.maxSteps, ?_, ?_⟩
  · intro hresult more hmore
    rcases run_of_higher budget tree hmore with hsame | hpassed
    · exact hsame.symm
    · exact absurd ⟨_, hpassed⟩ hresult
  · intro fewer hfewer
    exact run_of_higher { budget with maxSteps := fewer } tree hfewer

/-- Three parts in three octets, and three steps are enough. -/
theorem steps_within_limits_product :
    ∃ e, parse "6*7" = .ok e ∧ e.nodes = "6*7".utf8ByteSize ∧
      ¬PassesLimit (run {} { maxSteps := 3 } e).1 := by
  have hread : parse "6*7" = .ok (.binary .mul (.lit (.nat 6)) (.lit (.nat 7))) := rfl
  obtain ⟨-, -, hwithin, -⟩ := steps_within_limits hread {}
  exact ⟨_, hread, rfl, hwithin { maxSteps := 3 } (by decide)⟩

end PanelBus.Expr
