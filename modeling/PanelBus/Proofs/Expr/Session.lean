import PanelBus.Proofs.Expr.Containment
/-!
# Computations in sessions

An engine only spares the reading of sources again.  What a computation gives, and whether it breaks
off, is the same in every session with the same budget.
-/

namespace PanelBus.Expr

open Json (Value)

variable {α β : Type} {budget : Budget}

/-! ## What an engine keeps -/

/-- Every tree that the engine keeps is that of its source. -/
def Engine.Sound (engine : Engine) : Prop :=
  ∀ source e, engine.cache.get? source = some e → parse source = .ok e

theorem sound_start (budget : Budget) : Engine.Sound { budget } := nofun

theorem Engine.Sound.compile_eq {engine : Engine} (h : engine.Sound) (source : String) :
    (engine.compile source).1 = parse source := by
  unfold Engine.compile
  split
  · next e hkept => exact (h source e hkept).symm
  · split
    · next e hread => exact hread.symm
    · next error hread => exact hread.symm

theorem Engine.Sound.compile {engine : Engine} (h : engine.Sound) (source : String) :
    (engine.compile source).2.Sound := by
  unfold Engine.compile
  split
  · exact h
  · split
    · next e hread =>
      intro other tree htree
      by_cases hsame : other = source
      · subst hsame
        rw [NameMap.get?_insert_self] at htree
        rw [hread, Option.some.inj htree]
      · rw [NameMap.get?_insert_of_ne _ _ hsame] at htree
        exact h other tree htree
    · exact h

/-! ## Results that do not depend on the session -/

/-- In every session with that budget the computation gives `a`, and breaks off or not. -/
def Yields (budget : Budget) (m : SessionM α) (a : α) (broke : Bool) : Prop :=
  ∀ session : Session, session.engine.Sound → session.engine.budget = budget →
    (m.run session).1 = a ∧ (m.run session).2.broken = (session.broken || broke) ∧
      (m.run session).2.engine.Sound ∧ (m.run session).2.engine.budget = budget

theorem Yields.unique {m : SessionM α} {a b : α} {x y : Bool} (h : Yields budget m a x)
    (hother : Yields budget m b y) : a = b ∧ x = y := by
  obtain ⟨ha, hx, -⟩ := h { engine := { budget } } (sound_start budget) rfl
  obtain ⟨hb, hy, -⟩ := hother { engine := { budget } } (sound_start budget) rfl
  exact ⟨ha.symm.trans hb, hx.symm.trans hy⟩

theorem yields_pure (a : α) : Yields budget (pure a) a false :=
  fun _ hsound hbudget => ⟨rfl, (Bool.or_false _).symm, hsound, hbudget⟩

theorem Yields.bind {m : SessionM α} {f : α → SessionM β} {a : α} {b : β} {x y : Bool}
    (h : Yields budget m a x) (hf : Yields budget (f a) b y) :
    Yields budget (m >>= f) b (x || y) := by
  intro session hsound hbudget
  obtain ⟨ha, hx, hmiddle, hkept⟩ := h session hsound hbudget
  obtain ⟨hb, hy, hafter, hend⟩ := hf (m.run session).2 hmiddle hkept
  rw [hx, Bool.or_assoc] at hy
  have hrun : (m >>= f).run session = (f a).run (m.run session).2 := by
    rw [StateT.run_bind, ← ha]
    rfl
  rw [hrun]
  exact ⟨hb, hy, hafter, hend⟩

/-- What a source comes to. -/
def outcome (budget : Budget) (source : String) (ctx : Context) : Except Error Value :=
  parse source >>= fun e => (run ctx budget e).1

theorem yields_compile (budget : Budget) (source : String) :
    Yields budget (compile source) (parse source) false := by
  intro session hsound hbudget
  rw [run_compile]
  exact ⟨hsound.compile_eq source, (Bool.or_false _).symm, hsound.compile source,
    (session.engine.budget_compile source).trans hbudget⟩

theorem yields_evaluate (budget : Budget) (source : String) (ctx : Context) :
    Yields budget (evaluate source ctx) (outcome budget source ctx)
      (breaksOff (outcome budget source ctx)) := by
  intro session hsound hbudget
  have hcompiled := hsound.compile_eq source
  have hkept := session.engine.budget_compile source
  unfold outcome
  cases hread : parse source with
  | error error =>
      have hother : breaksOff (.error error) = false := by
        rw [← Bool.not_eq_true, breaksOff_iff]
        intro hbreak
        rw [Except.error.inj hbreak] at hread
        exact parse_ne_breakdown source hread
      rw [hread] at hcompiled
      rw [run_evaluate_of_error hcompiled]
      refine ⟨rfl, ?_, hsound.compile source, hkept.trans hbudget⟩
      change session.broken = (session.broken || breaksOff (.error error))
      rw [hother, Bool.or_false]
  | ok e =>
      rw [hread] at hcompiled
      rw [run_evaluate_of_ok hcompiled, hbudget]
      exact ⟨rfl, rfl, hsound.compile source, hkept.trans hbudget⟩

theorem state_evalValue? (source : String) (ctx : Context) (session : Session) :
    ((evalValue? source ctx).run session).2 = ((evaluate source ctx).run session).2 := by
  rw [run_evalValue?]

theorem Engine.Sound.evalValue?_eq_some_iff {session : Session} (h : session.engine.Sound)
    (source : String) (ctx : Context) (v : Value) :
    ((evalValue? source ctx).run session).1 = some v ↔
      outcome session.engine.budget source ctx = .ok v ∧ v ≠ .null := by
  obtain ⟨hresult, -⟩ := yields_evaluate session.engine.budget source ctx session h rfl
  rw [Expr.evalValue?_eq_some_iff, hresult]

theorem Engine.Sound.broken_evalValue?_iff {session : Session} (h : session.engine.Sound)
    (source : String) (ctx : Context) :
    ((evalValue? source ctx).run session).2.broken = true ↔ session.broken = true ∨
      outcome session.engine.budget source ctx = .error .breakdown := by
  obtain ⟨hresult, -⟩ := yields_evaluate session.engine.budget source ctx session h rfl
  rw [state_evalValue?, broken_evaluate_iff, hresult]

/-! ## Computations that come to the same -/

/-- With that budget the two computations give the same in all sessions, and both break off or
neither does. -/
def Alike (budget : Budget) (m m' : SessionM α) : Prop :=
  ∃ a broke, Yields budget m a broke ∧ Yields budget m' a broke

theorem Yields.alike {m : SessionM α} {a : α} {broke : Bool} (h : Yields budget m a broke) :
    Alike budget m m := ⟨a, broke, h, h⟩

/-- The new session stands for all. -/
theorem Alike.yields_start {m m' : SessionM α} (h : Alike budget m m') :
    Yields budget m (m.run { engine := { budget } }).1
      (m.run { engine := { budget } }).2.broken := by
  obtain ⟨a, broke, hm, -⟩ := h
  obtain ⟨ha, hbroke, -⟩ := hm { engine := { budget } } (sound_start budget) rfl
  rw [ha, hbroke]
  exact hm

theorem alike_pure (a : α) : Alike budget (pure a) (pure a) := (yields_pure a).alike

theorem Alike.bind {m m' : SessionM α} {f f' : α → SessionM β} (h : Alike budget m m')
    (hf : ∀ a, Alike budget (f a) (f' a)) : Alike budget (m >>= f) (m' >>= f') := by
  obtain ⟨a, x, hm, hm'⟩ := h
  obtain ⟨b, y, hb, hb'⟩ := hf a
  exact ⟨b, x || y, hm.bind hb, hm'.bind hb'⟩

theorem Alike.yields {m m' : SessionM α} (h : Alike budget m m') {a : α} {broke : Bool}
    (hm : Yields budget m a broke) : Yields budget m' a broke := by
  obtain ⟨b, y, hb, hb'⟩ := h
  obtain ⟨rfl, rfl⟩ := hm.unique hb
  exact hb'

variable {source : String} {ctx ctx' : Context}

theorem alike_evaluate (h : outcome budget source ctx = outcome budget source ctx') :
    Alike budget (evaluate source ctx) (evaluate source ctx') := by
  have hother := yields_evaluate budget source ctx'
  rw [← h] at hother
  exact ⟨_, _, yields_evaluate budget source ctx, hother⟩

theorem alike_evalGuard (h : outcome budget source ctx = outcome budget source ctx') :
    Alike budget (evalGuard source ctx) (evalGuard source ctx') := by
  refine (alike_evaluate h).bind fun result => ?_
  cases result <;> exact alike_pure _

theorem alike_evalValue? (h : outcome budget source ctx = outcome budget source ctx') :
    Alike budget (evalValue? source ctx) (evalValue? source ctx') := by
  refine (alike_evaluate h).bind fun result => ?_
  cases result with
  | error error => exact alike_pure _
  | ok v => cases v <;> exact alike_pure _

/-! ## Properties of results -/

/-- With that budget the computation gives one result in all sessions, and it has the property. -/
def Settles (budget : Budget) (m : SessionM α) (P : α → Prop) : Prop :=
  ∃ a broke, Yields budget m a broke ∧ P a

theorem settles_pure {P : α → Prop} {a : α} (h : P a) : Settles budget (pure a) P :=
  ⟨a, false, yields_pure a, h⟩

theorem Settles.bind {P : α → Prop} {Q : β → Prop} {m : SessionM α} {f : α → SessionM β}
    (h : Settles budget m P) (hf : ∀ a, P a → Settles budget (f a) Q) :
    Settles budget (m >>= f) Q := by
  obtain ⟨a, x, hm, ha⟩ := h
  obtain ⟨b, y, hb, hq⟩ := hf a ha
  exact ⟨b, x || y, hm.bind hb, hq⟩

theorem Alike.settles {m m' : SessionM α} (h : Alike budget m m') :
    Settles budget m fun _ => True := by
  obtain ⟨a, broke, hm, -⟩ := h
  exact ⟨a, broke, hm, trivial⟩

theorem Settles.of_yields {P : α → Prop} {m : SessionM α} {a : α} {broke : Bool}
    (h : Settles budget m P) (hm : Yields budget m a broke) : P a := by
  obtain ⟨b, y, hb, hp⟩ := h
  obtain ⟨rfl, -⟩ := hm.unique hb
  exact hp

end PanelBus.Expr
