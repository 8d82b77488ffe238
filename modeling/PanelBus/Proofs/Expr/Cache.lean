import Mathlib
import PanelBus.Proofs.Expr.Session
import PanelBus.Proofs.NameMap
/-!
# What an engine remembers

Whatever an engine was asked before, it responds to a request as a new engine with its budget does.
All that it remembers are the trees of the sources that it was given and could read, each of them
once.
-/

namespace PanelBus.Expr

open Json (Value)

/-! ## Requests -/

/-- What an engine can be asked for. -/
inductive Request where
  /-- The tree of a source. -/
  | tree (source : String)
  /-- The result of a source. -/
  | result (source : String) (ctx : Context)
  /-- The truth of a source as a guard. -/
  | guard (source : String) (ctx : Context)
  /-- The value of a source, if it has one. -/
  | value (source : String) (ctx : Context)

/-- The source of a request. -/
def Request.source : Request → String
  | .tree source | .result source _ | .guard source _ | .value source _ => source

/-- What a request gives. -/
inductive Answer where
  | tree (result : Except Error Expr)
  | result (result : Except Error Value)
  | guard (holds : Bool)
  | value (value? : Option Value)

/-- All that a request does besides what the engine remembers: its answer, the host functions it
calls, the failures it reports and whether it breaks off. -/
structure Response where
  answer : Answer
  calls : List HostCall
  failures : List Failure
  broken : Bool

/-- The computation that a request asks for. -/
def Request.perform : Request → SessionM Answer
  | .tree source => do return .tree (← compile source)
  | .result source ctx => do return .result (← evaluate source ctx)
  | .guard source ctx => do return .guard (← evalGuard source ctx)
  | .value source ctx => do return .value (← evalValue? source ctx)

/-- The truth of a result; a failure is not true. -/
def Answer.truthOf : Except Error Value → Bool
  | .ok v => v.truthy
  | .error _ => false

/-- The value of a result; a failure has none. -/
def Answer.valueOf? : Except Error Value → Option Value
  | .ok .null => none
  | .ok v => some v
  | .error _ => none

/-- A request reads its source, or else evaluates it and looks at the result. -/
theorem Request.perform_cases (request : Request) :
    request = .tree request.source ∨
      ∃ (ctx : Context) (read : Except Error Value → Answer), ∀ session : Session,
        request.perform.run session =
          (read ((evaluate request.source ctx).run session).1,
            ((evaluate request.source ctx).run session).2) := by
  cases request with
  | tree source => exact .inl rfl
  | result source ctx => exact .inr ⟨ctx, .result, fun _ => rfl⟩
  | guard source ctx =>
      refine .inr ⟨ctx, fun result => .guard (Answer.truthOf result), fun session => ?_⟩
      unfold perform
      rw [StateT.run_bind, run_evalGuard]
      rfl
  | value source ctx =>
      refine .inr ⟨ctx, fun result => .value (Answer.valueOf? result), fun session => ?_⟩
      unfold perform
      rw [StateT.run_bind, run_evalValue?]
      rfl

namespace Engine

/-- The response to a request, and the engine afterwards. -/
def respond (engine : Engine) (request : Request) : Response × Engine :=
  let (answer, after) := request.perform.run { engine }
  (⟨answer, after.calls, after.failures, after.broken⟩, after.engine)

/-- The responses to requests that come one after the other, and the engine afterwards. -/
def respondAll (engine : Engine) : List Request → List Response × Engine
  | [] => ([], engine)
  | request :: rest =>
    let (response, next) := engine.respond request
    let (responses, last) := next.respondAll rest
    (response :: responses, last)

variable {engine other : Engine} {budget : Budget} {used : List String} {source : String} {e : Expr}

/-! ## One request -/

theorem run_evaluate_of_sound (h : engine.Sound) (source : String) (ctx : Context) :
    (evaluate source ctx).run { engine } =
      match parse source with
      | .error error =>
        (.error error, { engine := (engine.compile source).2, failures := [⟨source, error⟩] })
      | .ok e =>
        ((run ctx engine.budget e).1,
          { engine := (engine.compile source).2
            calls := (run ctx engine.budget e).2.calls
            failures := Failure.ofResult source (run ctx engine.budget e).1
            broken := breaksOff (run ctx engine.budget e).1 }) := by
  have hcompiled := h.compile_eq source
  cases hread : parse source with
  | error error =>
      rw [hread] at hcompiled
      exact run_evaluate_of_error hcompiled
  | ok e =>
      rw [hread] at hcompiled
      rw [run_evaluate_of_ok hcompiled, List.append_nil, Bool.false_or]
      rfl

theorem engine_evaluate (source : String) (ctx : Context) (session : Session) :
    ((evaluate source ctx).run session).2.engine = (session.engine.compile source).2 := by
  cases hcompiled : (session.engine.compile source).1 with
  | error error => rw [run_evaluate_of_error hcompiled]
  | ok e => rw [run_evaluate_of_ok hcompiled]

/-- The response does not depend on what a sound engine keeps. -/
theorem respond_congr (h : engine.Sound) (hother : other.Sound)
    (hbudget : engine.budget = other.budget) (request : Request) :
    (engine.respond request).1 = (other.respond request).1 := by
  rcases request.perform_cases with htree | ⟨ctx, read, hrun⟩
  · have hresponse (engine : Engine) : (engine.respond request).1 =
        ⟨.tree (engine.compile request.source).1, [], [], false⟩ := by
      rw [htree]
      rfl
    rw [hresponse, hresponse, h.compile_eq, hother.compile_eq]
  · unfold respond
    rw [hrun, hrun, run_evaluate_of_sound h, run_evaluate_of_sound hother, hbudget]
    cases parse request.source <;> rfl

/-- All that a request leaves behind is the tree of its source. -/
theorem respond_engine (engine : Engine) (request : Request) :
    (engine.respond request).2 = (engine.compile request.source).2 := by
  rcases request.perform_cases with htree | ⟨ctx, read, hrun⟩
  · rw [htree]
    rfl
  · unfold respond
    rw [hrun]
    exact engine_evaluate request.source ctx { engine }

/-! ## What is kept -/

theorem compile_of_error {error : Error} (hread : parse source = .error error) :
    (engine.compile source).2 = engine := by
  unfold compile
  split
  · rfl
  · rw [hread]

/-- The tree that is kept afterwards is the one that was given. -/
theorem get?_compile_self (engine : Engine) (source : String) (e : Expr) :
    (engine.compile source).2.cache.get? source = some e ↔
      (engine.compile source).1 = .ok e := by
  unfold compile
  cases hkept : engine.cache.get? source with
  | some kept =>
      dsimp only
      rw [hkept, Option.some_inj, Except.ok.injEq]
  | none =>
      dsimp only
      cases parse source with
      | error error =>
          dsimp only
          rw [hkept]
          exact iff_of_false nofun nofun
      | ok tree =>
          dsimp only
          rw [NameMap.get?_insert_self, Option.some_inj, Except.ok.injEq]

theorem get?_compile_of_ne (engine : Engine) {other : String} (h : other ≠ source) :
    (engine.compile source).2.cache.get? other = engine.cache.get? other := by
  unfold compile
  split
  · rfl
  · split
    · exact NameMap.get?_insert_of_ne _ _ h
    · rfl

theorem rising_compile (h : engine.cache.Rising) (source : String) :
    (engine.compile source).2.cache.Rising := by
  unfold compile
  split
  · exact h
  · split
    · exact h.insert _ _
    · exact h

/-- The engine keeps exactly the trees of those used sources that can be read. -/
structure Holds (engine : Engine) (budget : Budget) (used : List String) : Prop where
  budget : engine.budget = budget
  rising : engine.cache.Rising
  get?_iff : ∀ source e,
    engine.cache.get? source = some e ↔ source ∈ used ∧ parse source = .ok e

theorem holds_start (budget : Budget) : Holds { budget } budget [] where
  budget := rfl
  rising := NameMap.rising_nil
  get?_iff _ _ := iff_of_false nofun fun h => List.not_mem_nil h.1

namespace Holds

theorem sound (h : engine.Holds budget used) : engine.Sound :=
  fun source e hkept => ((h.get?_iff source e).mp hkept).2

theorem compile (h : engine.Holds budget used) (source : String) :
    (engine.compile source).2.Holds budget (used ++ [source]) where
  budget := (engine.budget_compile source).trans h.budget
  rising := rising_compile h.rising source
  get?_iff other e := by
    rw [List.mem_append, List.mem_singleton]
    by_cases hsame : other = source
    · subst hsame
      rw [get?_compile_self, h.sound.compile_eq]
      exact (and_iff_right (.inr rfl)).symm
    · rw [get?_compile_of_ne engine hsame, h.get?_iff, or_iff_left hsame]

theorem mem_iff (h : engine.Holds budget used) (source : String) (e : Expr) :
    (source, e) ∈ engine.cache ↔ source ∈ used ∧ parse source = .ok e := by
  rw [← h.get?_iff]
  exact ⟨h.rising.get?_eq, NameMap.mem_of_get?⟩

/-- Each readable source counts once. -/
theorem cached_eq (h : engine.Holds budget used) :
    engine.cached = {source | source ∈ used ∧ ∃ e, parse source = .ok e}.ncard := by
  have hnames : {source | source ∈ used ∧ ∃ e, parse source = .ok e} =
      (engine.cache.names.toFinset : Set String) := by
    ext source
    rw [Finset.mem_coe, List.mem_toFinset, NameMap.names, List.mem_map]
    constructor
    · rintro ⟨hused, e, hread⟩
      exact ⟨(source, e), (h.mem_iff source e).mpr ⟨hused, hread⟩, rfl⟩
    · rintro ⟨⟨_, e⟩, hkept, rfl⟩
      obtain ⟨hused, hread⟩ := (h.mem_iff _ e).mp hkept
      exact ⟨hused, e, hread⟩
  have hdistinct : engine.cache.names.Nodup :=
    (List.pairwise_map.mpr h.rising).imp fun hbefore => ne_of_lt hbefore
  rw [hnames, Set.ncard_coe_finset, List.toFinset_card_of_nodup hdistinct]
  exact (List.length_map _).symm

end Holds

/-! ## Requests one after the other -/

theorem respondAll_of_holds (h : engine.Holds budget used) (requests : List Request) :
    (engine.respondAll requests).1 =
        requests.map (fun request => (respond { budget } request).1) ∧
      (engine.respondAll requests).2.Holds budget (used ++ requests.map Request.source) := by
  induction requests generalizing engine used with
  | nil => exact ⟨rfl, (List.append_nil used).symm ▸ h⟩
  | cons request rest ih =>
      have hnext : (engine.respond request).2.Holds budget (used ++ [request.source]) := by
        rw [respond_engine]
        exact h.compile request.source
      obtain ⟨hresponses, hlast⟩ := ih hnext
      rw [List.append_assoc, List.singleton_append] at hlast
      refine ⟨?_, hlast⟩
      exact congrArg₂ List.cons
        (respond_congr h.sound (holds_start budget).sound h.budget request) hresponses

/-- An engine that was new and then met any requests has responded to each of them as a new engine
with its budget does.  It keeps the trees of the sources that were used and can be read, each once,
and nothing else, so it counts as many as there are such sources.  A request whose source cannot be
read leaves it as it is. -/
theorem cache_transparent (budget : Budget) (requests : List Request) :
    let engine := (respondAll { budget } requests).2
    (respondAll { budget } requests).1 =
        requests.map (fun request => (respond { budget } request).1) ∧
      (∀ source e, (source, e) ∈ engine.cache ↔
        source ∈ requests.map Request.source ∧ parse source = .ok e) ∧
      engine.cached =
        {source | source ∈ requests.map Request.source ∧ ∃ e, parse source = .ok e}.ncard ∧
      ∀ request error, parse request.source = .error error →
        (engine.respond request).2 = engine := by
  intro engine
  obtain ⟨hresponses, hholds⟩ := respondAll_of_holds (holds_start budget) requests
  refine ⟨hresponses, hholds.mem_iff, hholds.cached_eq, fun request error hread => ?_⟩
  rw [respond_engine, compile_of_error hread]

/-- A guard that cannot be read, the same source twice, and a list that breaks off. -/
theorem cache_transparent_twice :
    let requests : List Request :=
      [.guard "data[" {}, .result "1 + 2" {}, .value "[(-9223372036854775807 - 1) / -1]" {},
        .guard "1 + 2" {}]
    let engine := (respondAll {} requests).2
    (engine.cached = 2 ∧ ∃ e, ("1 + 2", e) ∈ engine.cache ∧ parse "1 + 2" = .ok e) ∧
      (respondAll {} requests).1 = requests.map (fun request => (respond {} request).1) ∧
      (∃ error, parse "data[" = .error error) ∧
      (engine.respond (.guard "data[" {})).2 = engine := by
  intro requests engine
  obtain ⟨hresponses, hkept, -, hunread⟩ := cache_transparent {} requests
  have hread : parse "1 + 2" =
      .ok (.binary .add (.lit (.int 1)) (.lit (.int 2))) := rfl
  have hfails : ∃ error, parse "data[" = .error error := ⟨_, rfl⟩
  obtain ⟨error, herror⟩ := hfails
  exact ⟨⟨rfl, _, (hkept _ _).mpr ⟨by simp [requests, Request.source], hread⟩, hread⟩, hresponses,
    ⟨error, herror⟩, hunread (.guard "data[" {}) error herror⟩

end Engine

end PanelBus.Expr
