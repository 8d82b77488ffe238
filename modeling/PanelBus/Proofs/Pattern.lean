import PanelBus.Pattern.Match
import PanelBus.Proofs.Expr.Session
/-!
# The course of a match

All that a match does is to evaluate guards.  The rules below say, for a pattern with exceptions of
any depth, what the result is and which guards are evaluated on the way, in their order; the calls
of host functions are those of these guards, one evaluation each.
-/

namespace PanelBus

namespace Expr

open Json (Value)

variable {α β : Type} {budget : Budget} {ctx : Context} {source : String} {session : Session}

/-! ## Single guards -/

/-- The source has a value, and it counts as true. -/
def GuardHolds (budget : Budget) (ctx : Context) (source : String) : Prop :=
  ∃ v, outcome budget source ctx = .ok v ∧ v.truthy = true

/-- The calls of host functions that one evaluation of the source makes. -/
def callsOf (budget : Budget) (ctx : Context) (source : String) : List HostCall :=
  match parse source with
  | .ok e => (run ctx budget e).2.calls
  | .error _ => []

theorem calls_evaluate (h : session.engine.Sound) (source : String) (ctx : Context) :
    ((evaluate source ctx).run session).2.calls =
      session.calls ++ callsOf session.engine.budget ctx source := by
  have hcompiled := h.compile_eq source
  unfold callsOf
  cases hread : parse source with
  | error error =>
      rw [hread] at hcompiled
      rw [run_evaluate_of_error hcompiled]
      exact (List.append_nil session.calls).symm
  | ok e =>
      rw [hread] at hcompiled
      rw [run_evaluate_of_ok hcompiled]

theorem evalGuard_eq_true_iff_holds (h : session.engine.Sound) :
    ((evalGuard source ctx).run session).1 = true ↔
      GuardHolds session.engine.budget ctx source := by
  obtain ⟨hresult, -⟩ := yields_evaluate session.engine.budget source ctx session h rfl
  rw [evalGuard_eq_true_iff, hresult]
  exact Iff.rfl

theorem state_evalGuard :
    ((evalGuard source ctx).run session).2 = ((evaluate source ctx).run session).2 := by
  rw [run_evalGuard]

/-! ## Guards one after the other -/

/-- The session after the evaluation of those guards, each once and from left to right. -/
def Session.afterGuards (session : Session) (ctx : Context) (sources : List String) : Session :=
  sources.foldl (fun s source => ((evalGuard source ctx).run s).2) session

theorem Session.afterGuards_append (session : Session) (ctx : Context)
    (first second : List String) :
    session.afterGuards ctx (first ++ second) =
      (session.afterGuards ctx first).afterGuards ctx second :=
  List.foldl_append

/-- What guards leave behind: the engine stays sound, their calls stand in their order behind those
made before, and the session is broken as soon as one of them breaks off. -/
theorem Session.afterGuards_spec (ctx : Context) (sources : List String) : ∀ {session : Session},
    session.engine.Sound → session.engine.budget = budget →
      (session.afterGuards ctx sources).engine.Sound ∧
        (session.afterGuards ctx sources).engine.budget = budget ∧
        (session.afterGuards ctx sources).calls =
          session.calls ++ sources.flatMap (callsOf budget ctx) ∧
        ((session.afterGuards ctx sources).broken = true ↔ session.broken = true ∨
          ∃ source ∈ sources, outcome budget source ctx = .error .breakdown) := by
  induction sources with
  | nil =>
      intro session hsound hbudget
      refine ⟨hsound, hbudget, (List.append_nil session.calls).symm, (or_iff_left ?_).symm⟩
      exact fun ⟨_, hnone, _⟩ => List.not_mem_nil hnone
  | cons source rest ih =>
      intro session hsound hbudget
      obtain ⟨-, hbroken, hmiddle, hkept⟩ :=
        yields_evaluate budget source ctx session hsound hbudget
      have hcalls := calls_evaluate hsound source ctx
      rw [hbudget] at hcalls
      rw [← state_evalGuard] at hbroken hmiddle hkept hcalls
      obtain ⟨hafter, hend, hallCalls, hallBroken⟩ := ih hmiddle hkept
      refine ⟨hafter, hend, ?_, ?_⟩
      · rw [List.flatMap_cons, ← List.append_assoc, ← hcalls]
        exact hallCalls
      · rw [List.exists_mem_cons_iff, ← or_assoc, ← breaksOff_iff, ← Bool.or_eq_true, ← hbroken]
        exact hallBroken

/-- In every session with that budget the computation gives `a`, and all that it does is to evaluate
those guards in that order. -/
def Asks (budget : Budget) (ctx : Context) (m : SessionM α) (a : α) (asked : List String) : Prop :=
  ∀ session : Session, session.engine.Sound → session.engine.budget = budget →
    m.run session = (a, session.afterGuards ctx asked)

theorem asks_pure (a : α) : Asks budget ctx (pure a) a [] := fun _ _ _ => rfl

theorem Asks.bind {m : SessionM α} {f : α → SessionM β} {a : α} {b : β} {first second : List String}
    (h : Asks budget ctx m a first) (hf : Asks budget ctx (f a) b second) :
    Asks budget ctx (m >>= f) b (first ++ second) := by
  intro session hsound hbudget
  obtain ⟨hmiddle, hkept, -⟩ := Session.afterGuards_spec ctx first hsound hbudget
  rw [StateT.run_bind, h session hsound hbudget, Session.afterGuards_append]
  exact hf (session.afterGuards ctx first) hmiddle hkept

theorem asks_evalGuard {holds : Bool} (h : holds = true ↔ GuardHolds budget ctx source) :
    Asks budget ctx (evalGuard source ctx) holds [source] := by
  intro session hsound hbudget
  have hresult : ((evalGuard source ctx).run session).1 = holds := by
    rw [Bool.eq_iff_iff, evalGuard_eq_true_iff_holds hsound, hbudget, h]
  exact Prod.ext hresult rfl

/-- In all sessions with that budget the computation gives and evaluates what the rules allow. -/
def Obeys (budget : Budget) (ctx : Context) (m : SessionM α) (rules : α → List String → Prop) :
    Prop :=
  ∃ a asked, rules a asked ∧ Asks budget ctx m a asked

end Expr

namespace Pattern

variable {budget : Expr.Budget} {ctx : MatchContext} {frame : Bytes} {pattern : Pattern}
  {patterns : List Pattern}

/-! ## The rules -/

/-- The comparison of octets before its inversion.  Without octets there is one only where that is
allowed. -/
def compared? (ctx : MatchContext) (frame : Bytes) (pattern : Pattern) : Option Bool :=
  if pattern.data = [] then
    if ctx.allowEmpty then some true else none
  else some (pattern.fits frame ctx.base)

/-- The comparison with its inversion allows a match. -/
def Agrees (ctx : MatchContext) (frame : Bytes) (pattern : Pattern) : Prop :=
  pattern.compared? ctx frame = some (!pattern.inverted)

theorem compares_eq_true_iff : pattern.compares ctx frame = true ↔ pattern.Agrees ctx frame := by
  have hempty := List.isEmpty_iff (l := pattern.data)
  unfold compares Agrees compared?
  by_cases hdata : pattern.data = []
  · rw [if_pos (hempty.2 hdata), if_pos hdata]
    cases ctx.allowEmpty <;> cases pattern.inverted <;> decide
  · rw [if_neg (mt hempty.1 hdata), if_neg hdata]
    cases pattern.fits frame ctx.base <;> cases pattern.inverted <;> decide

/-- The guard of a pattern, if it has one, holds on the whole frame. -/
def Guarded (budget : Expr.Budget) (ctx : MatchContext) (frame : Bytes) (pattern : Pattern) :
    Prop :=
  ∀ source, pattern.guard? = some source →
    Expr.GuardHolds budget (.ofFrame frame ctx.state ctx.hosts) source

mutual

/-- The match of the pattern has that result, and evaluates those guards in that order. -/
inductive Course (budget : Expr.Budget) (ctx : MatchContext) (frame : Bytes) :
    Pattern → Bool → List String → Prop where
  /-- Behind a comparison that fails nothing is evaluated. -/
  | unlike {pattern : Pattern} (hunlike : ¬pattern.Agrees ctx frame) :
      Course budget ctx frame pattern false []
  /-- Behind a guard that does not hold no exception is looked at. -/
  | refused {pattern : Pattern} {source : String} (hagrees : pattern.Agrees ctx frame)
      (hsource : pattern.guard? = some source) (hrefused : ¬pattern.Guarded budget ctx frame) :
      Course budget ctx frame pattern false [source]
  | decided {pattern : Pattern} {found : Bool} {asked : List String}
      (hagrees : pattern.Agrees ctx frame) (hguarded : pattern.Guarded budget ctx frame)
      (hexcept : Tried budget ctx frame pattern.except found asked) :
      Course budget ctx frame pattern (!found) (pattern.guard?.toList ++ asked)

/-- The patterns are tried from left to right up to the first that matches; so it is known whether
one does, and those guards are evaluated in that order. -/
inductive Tried (budget : Expr.Budget) (ctx : MatchContext) (frame : Bytes) :
    List Pattern → Bool → List String → Prop where
  | none : Tried budget ctx frame [] false []
  | found {pattern : Pattern} {rest : List Pattern} {asked : List String}
      (hfirst : Course budget ctx frame pattern true asked) :
      Tried budget ctx frame (pattern :: rest) true asked
  | passed {pattern : Pattern} {rest : List Pattern} {found : Bool} {asked others : List String}
      (hfirst : Course budget ctx frame pattern false asked)
      (hrest : Tried budget ctx frame rest found others) :
      Tried budget ctx frame (pattern :: rest) found (asked ++ others)

end

mutual

theorem Course.unique : ∀ {pattern : Pattern} {a b : Bool} {asked others : List String},
    Course budget ctx frame pattern a asked → Course budget ctx frame pattern b others →
      a = b ∧ asked = others
  | _, _, _, _, _, .unlike _, .unlike _ => ⟨rfl, rfl⟩
  | _, _, _, _, _, .unlike hunlike, .refused hagrees _ _ => absurd hagrees hunlike
  | _, _, _, _, _, .unlike hunlike, .decided hagrees _ _ => absurd hagrees hunlike
  | _, _, _, _, _, .refused hagrees _ _, .unlike hunlike => absurd hagrees hunlike
  | _, _, _, _, _, .refused _ hsource _, .refused _ hother _ =>
      ⟨rfl, congrArg (fun source => [source]) (Option.some.inj (hsource.symm.trans hother))⟩
  | _, _, _, _, _, .refused _ _ hrefused, .decided _ hguarded _ => absurd hguarded hrefused
  | _, _, _, _, _, .decided hagrees _ _, .unlike hunlike => absurd hagrees hunlike
  | _, _, _, _, _, .decided _ hguarded _, .refused _ _ hrefused => absurd hguarded hrefused
  | _, _, _, _, _, .decided _ _ hexcept, .decided _ _ hother => by
      obtain ⟨rfl, rfl⟩ := Tried.unique hexcept hother
      exact ⟨rfl, rfl⟩

theorem Tried.unique : ∀ {patterns : List Pattern} {a b : Bool} {asked others : List String},
    Tried budget ctx frame patterns a asked → Tried budget ctx frame patterns b others →
      a = b ∧ asked = others
  | _, _, _, _, _, .none, .none => ⟨rfl, rfl⟩
  | _, _, _, _, _, .found hfirst, .found hother => Course.unique hfirst hother
  | _, _, _, _, _, .found hfirst, .passed hother _ => absurd (Course.unique hfirst hother).1 nofun
  | _, _, _, _, _, .passed hfirst _, .found hother => absurd (Course.unique hfirst hother).1 nofun
  | _, _, _, _, _, .passed hfirst hrest, .passed hother hothers => by
      obtain ⟨-, rfl⟩ := Course.unique hfirst hother
      obtain ⟨rfl, rfl⟩ := Tried.unique hrest hothers
      exact ⟨rfl, rfl⟩

end

/-! ## What matching does -/

/-- The guard of a pattern, true where it has none. -/
def guardHolds (ctx : MatchContext) (frame : Bytes) (pattern : Pattern) : Expr.SessionM Bool :=
  match pattern.guard? with
  | none => pure true
  | some source => Expr.evalGuard source (.ofFrame frame ctx.state ctx.hosts)

theorem matchesFrame_of_unlike (h : ¬pattern.Agrees ctx frame) :
    pattern.matchesFrame ctx frame = pure false := by
  rw [← compares_eq_true_iff, Bool.not_eq_true] at h
  cases pattern
  rw [matchesFrame, h]
  rfl

theorem matchesFrame_of_agrees (h : pattern.Agrees ctx frame) :
    pattern.matchesFrame ctx frame = (do
      if !(← pattern.guardHolds ctx frame) then return false
      return !(← anyMatches ctx frame pattern.except)) := by
  rw [← compares_eq_true_iff] at h
  cases pattern with
  | mk offset data mask? inverted guard? except =>
      rw [matchesFrame, h]
      cases guard? <;> rfl

theorem asks_guardHolds_of_guarded (h : pattern.Guarded budget ctx frame) :
    Expr.Asks budget (.ofFrame frame ctx.state ctx.hosts) (pattern.guardHolds ctx frame) true
      pattern.guard?.toList := by
  unfold guardHolds
  cases hguard : pattern.guard? with
  | none => exact Expr.asks_pure true
  | some source => exact Expr.asks_evalGuard (iff_of_true rfl (h source hguard))

theorem exists_guard_of_not_guarded (h : ¬pattern.Guarded budget ctx frame) :
    ∃ source, pattern.guard? = some source ∧
      ¬Expr.GuardHolds budget (.ofFrame frame ctx.state ctx.hosts) source := by
  unfold Guarded at h
  rw [not_forall] at h
  obtain ⟨source, hnot⟩ := h
  exact ⟨source, Classical.not_imp.1 hnot⟩

theorem obeys_of_except
    (h : Expr.Obeys budget (.ofFrame frame ctx.state ctx.hosts)
      (anyMatches ctx frame pattern.except) (Tried budget ctx frame pattern.except)) :
    Expr.Obeys budget (.ofFrame frame ctx.state ctx.hosts) (pattern.matchesFrame ctx frame)
      (Course budget ctx frame pattern) := by
  by_cases hagrees : pattern.Agrees ctx frame
  · rw [matchesFrame_of_agrees hagrees]
    by_cases hguarded : pattern.Guarded budget ctx frame
    · obtain ⟨found, asked, htried, hasks⟩ := h
      have hexcept := hasks.bind (f := fun a => pure !a) (Expr.asks_pure !found)
      rw [List.append_nil] at hexcept
      exact ⟨!found, _, .decided hagrees hguarded htried,
        (asks_guardHolds_of_guarded hguarded).bind hexcept⟩
    · obtain ⟨source, hsource, hnot⟩ := exists_guard_of_not_guarded hguarded
      refine ⟨false, [source], .refused hagrees hsource hguarded, ?_⟩
      unfold guardHolds
      rw [hsource]
      exact (Expr.asks_evalGuard (iff_of_false Bool.false_ne_true hnot)).bind (Expr.asks_pure false)
  · rw [matchesFrame_of_unlike hagrees]
    exact ⟨false, [], .unlike hagrees, Expr.asks_pure false⟩

mutual

theorem obeys_matchesFrame : ∀ pattern : Pattern,
    Expr.Obeys budget (.ofFrame frame ctx.state ctx.hosts) (pattern.matchesFrame ctx frame)
      (Course budget ctx frame pattern)
  | ⟨_, _, _, _, _, except⟩ => obeys_of_except (obeys_anyMatches except)

theorem obeys_anyMatches : ∀ patterns : List Pattern,
    Expr.Obeys budget (.ofFrame frame ctx.state ctx.hosts) (anyMatches ctx frame patterns)
      (Tried budget ctx frame patterns)
  | [] => ⟨false, [], .none, Expr.asks_pure false⟩
  | pattern :: rest => by
      obtain ⟨result, asked, hfirst, hasks⟩ := obeys_matchesFrame pattern
      rw [anyMatches]
      cases result with
      | true =>
          refine ⟨true, asked, .found hfirst, ?_⟩
          rw [← List.append_nil asked]
          exact hasks.bind (Expr.asks_pure true)
      | false =>
          obtain ⟨found, others, hrest, hothers⟩ := obeys_anyMatches rest
          exact ⟨found, asked ++ others, .passed hfirst hrest, hasks.bind hothers⟩

end

/-! ## When a pattern matches -/

/-- The rules make the pattern match. -/
def Matches (budget : Expr.Budget) (ctx : MatchContext) (frame : Bytes) (pattern : Pattern) :
    Prop :=
  ∃ asked, Course budget ctx frame pattern true asked

theorem Tried.eq_true_iff {found : Bool} {asked : List String}
    (h : Tried budget ctx frame patterns found asked) :
    found = true ↔ ∃ pattern ∈ patterns, pattern.Matches budget ctx frame := by
  induction patterns generalizing found asked with
  | nil =>
      cases h
      exact iff_of_false Bool.false_ne_true fun ⟨_, hnone, _⟩ => List.not_mem_nil hnone
  | cons pattern rest ih =>
      rw [List.exists_mem_cons_iff]
      cases h with
      | found hfirst => exact iff_of_true rfl (.inl ⟨_, hfirst⟩)
      | passed hfirst hrest =>
          have hnot : ¬pattern.Matches budget ctx frame :=
            fun ⟨_, hother⟩ => nomatch (hfirst.unique hother).1
          rw [or_iff_right hnot]
          exact ih hrest

theorem Course.eq_true_iff {result : Bool} {asked : List String}
    (h : Course budget ctx frame pattern result asked) :
    result = true ↔ pattern.Agrees ctx frame ∧ pattern.Guarded budget ctx frame ∧
      ¬∃ other ∈ pattern.except, other.Matches budget ctx frame := by
  cases h with
  | unlike hunlike => exact iff_of_false Bool.false_ne_true fun hall => hunlike hall.1
  | refused _ _ hrefused => exact iff_of_false Bool.false_ne_true fun hall => hrefused hall.2.1
  | decided hagrees hguarded hexcept =>
      rw [← hexcept.eq_true_iff, Bool.not_eq_true', Bool.not_eq_true]
      exact ⟨fun hnone => ⟨hagrees, hguarded, hnone⟩, fun hall => hall.2.2⟩

/-- A match takes the course that the rules give, and no other: the result is the comparison, then
the guard, then the exceptions; the calls of host functions are those of the guards evaluated on the
way; and it comes back at all exactly when none of these guards breaks off. -/
theorem matchesFrame_takes_course {session : Expr.Session} (hsound : session.engine.Sound)
    (ctx : MatchContext) (frame : Bytes) (pattern : Pattern) :
    let budget := session.engine.budget
    let seen : Expr.Context := .ofFrame frame ctx.state ctx.hosts
    let result := ((pattern.matchesFrame ctx frame).run session).1
    let after := ((pattern.matchesFrame ctx frame).run session).2
    (result = true ↔ pattern.Agrees ctx frame ∧ pattern.Guarded budget ctx frame ∧
        ¬∃ other ∈ pattern.except, other.Matches budget ctx frame) ∧
      ∃ asked, Course budget ctx frame pattern result asked ∧
        (∀ other others, Course budget ctx frame pattern other others →
          other = result ∧ others = asked) ∧
        after = session.afterGuards seen asked ∧
        after.calls = session.calls ++ asked.flatMap (Expr.callsOf budget seen) ∧
        (after.broken = true ↔ session.broken = true ∨
          ∃ source ∈ asked, Expr.outcome budget source seen = .error .breakdown) := by
  intro budget seen
  obtain ⟨result, asked, hcourse, hasks⟩ : Expr.Obeys budget seen (pattern.matchesFrame ctx frame)
    (Course budget ctx frame pattern) := obeys_matchesFrame pattern
  obtain ⟨-, -, hcalls, hbroken⟩ :=
    Expr.Session.afterGuards_spec seen asked hsound rfl
  rw [hasks session hsound rfl]
  exact ⟨hcourse.eq_true_iff, asked, hcourse, fun _ _ hother => hother.unique hcourse, rfl, hcalls,
    hbroken⟩

/-- Of four exceptions the first does not compare, the guard of the second does not hold, the third
matches, and the fourth is not looked at any more. -/
theorem matchesFrame_takes_course_excepted :
    let hosts : NameMap Expr.HostFunction :=
      ["a", "b", "c", "d", "e"].map fun name => (name, fun _ => .ok (.bool (name != "c")))
    let pattern : Pattern :=
      { data := [0x30], guard? := some "a()", except :=
        [{ data := [0x31], guard? := some "b()" }, { data := [0x30], guard? := some "c()" },
          { data := [0x30], guard? := some "d()" }, { data := [0x30], guard? := some "e()" }] }
    let run := (pattern.matchesFrame { hosts } [0x30]).run {}
    (∃ asked, Course {} { hosts } [0x30] pattern false asked) ∧
      run.1 = false ∧ run.2.calls.map Expr.HostCall.name = ["a", "c", "d"] := by
  refine ⟨?_, rfl, rfl⟩
  have hsound : ({} : Expr.Session).engine.Sound := Expr.sound_start {}
  obtain ⟨-, asked, hcourse, -⟩ := matchesFrame_takes_course hsound _ [0x30] _
  exact ⟨asked, hcourse⟩

/-- The guard's failure does not count as false: the match does not come back. -/
theorem matchesFrame_breaks_off :
    let pattern : Pattern :=
      { data := [0x30], guard? := some "(-9223372036854775807 - 1) / -1" }
    pattern.Agrees {} [0x30] ∧ ((pattern.matchesFrame {} [0x30]).run {}).2.broken = true :=
  ⟨rfl, rfl⟩

end Pattern

end PanelBus
