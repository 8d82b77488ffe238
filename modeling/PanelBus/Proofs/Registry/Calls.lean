import PanelBus.Registry
import PanelBus.Proofs.Expr.Containment
/-!
# How calls of host functions add up

The calls that a session has seen stay as they are, and new ones go behind them.  Reading sources
calls nothing.
-/

namespace PanelBus

open Json (Value Fields)

namespace Expr

variable {α β : Type}

/-- The computation only adds calls behind those made before. -/
def Adds (m : SessionM α) : Prop :=
  ∀ session : Session, session.calls <+: (m.run session).2.calls

theorem adds_pure (a : α) : Adds (pure a) := fun session => session.calls.prefix_refl

theorem Adds.bind {m : SessionM α} {f : α → SessionM β} (h : Adds m) (hf : ∀ a, Adds (f a)) :
    Adds (m >>= f) := by
  intro session
  rw [StateT.run_bind]
  exact (h session).trans (hf _ _)

theorem adds_evaluate (source : String) (ctx : Context) : Adds (evaluate source ctx) := by
  intro session
  cases hcompiled : (session.engine.compile source).1 with
  | error error =>
      rw [run_evaluate_of_error hcompiled]
  | ok e =>
      rw [run_evaluate_of_ok hcompiled]
      exact List.prefix_append _ _

theorem adds_evalGuard (source : String) (ctx : Context) : Adds (evalGuard source ctx) := by
  refine (adds_evaluate source ctx).bind fun result => ?_
  cases result <;> exact adds_pure _

theorem adds_evalValue? (source : String) (ctx : Context) : Adds (evalValue? source ctx) := by
  refine (adds_evaluate source ctx).bind fun result => ?_
  cases result with
  | error error => exact adds_pure _
  | ok v => cases v <;> exact adds_pure _

end Expr

/-! ## Patterns -/

namespace Pattern

variable {ctx : MatchContext} {frame : Bytes}

mutual

theorem adds_matchesFrame : ∀ pattern : Pattern, Expr.Adds (pattern.matchesFrame ctx frame)
  | ⟨offset, data, mask?, inverted, guard?, except⟩ => by
      rw [matchesFrame]
      have hexcept : ∀ guarded : Bool, Expr.Adds
          (if !guarded then pure false else do return !(← anyMatches ctx frame except)) := by
        intro guarded
        split
        · exact Expr.adds_pure _
        · exact (adds_anyMatches except).bind fun _ => Expr.adds_pure _
      dsimp only
      split
      · exact Expr.adds_pure _
      · cases guard? with
        | none => exact (Expr.adds_pure true).bind hexcept
        | some source => exact (Expr.adds_evalGuard source _).bind hexcept

theorem adds_anyMatches : ∀ patterns : List Pattern, Expr.Adds (anyMatches ctx frame patterns)
  | [] => Expr.adds_pure _
  | pattern :: rest => by
      rw [anyMatches]
      refine (adds_matchesFrame pattern).bind fun found => ?_
      split
      · exact Expr.adds_pure _
      · exact adds_anyMatches rest

end

end Pattern

/-! ## Devices -/

theorem Command.adds_payload? (command : Command) (value? : Option Value) (state : Fields)
    (hosts : NameMap Expr.HostFunction) : Expr.Adds (command.payload? value? state hosts) := by
  unfold payload?
  split
  · cases command.lambda? with
    | none => exact Expr.adds_pure _
    | some source => exact (Expr.adds_evalValue? source _).bind fun _ => Expr.adds_pure _
  · exact Expr.adds_pure _

namespace Device

variable {env : DeviceEnv} {device : Device} {frame : Bytes}

theorem adds_receives : Expr.Adds (device.receives env frame) := by
  unfold receives
  cases device.entity.common.state? with
  | none => exact Expr.adds_pure _
  | some pattern => exact pattern.adds_matchesFrame

theorem adds_firstMode? (modes : List (String × Option Pattern)) :
    Expr.Adds (firstMode? env device frame modes) := by
  induction modes with
  | nil => exact Expr.adds_pure _
  | cons mode rest ih =>
      obtain ⟨name, pattern?⟩ := mode
      have hmode : Expr.Adds (inMode env device frame pattern?) := by
        unfold inMode
        cases pattern? with
        | none => exact Expr.adds_pure _
        | some pattern => exact pattern.adds_matchesFrame
      refine hmode.bind fun found => ?_
      split
      · exact Expr.adds_pure _
      · exact ih

theorem adds_computedFields {ctx : Expr.Context} (lambdas : List (String × String)) :
    Expr.Adds (computedFields ctx lambdas) := by
  induction lambdas with
  | nil => exact Expr.adds_pure _
  | cons entry rest ih =>
      refine (Expr.adds_evalValue? entry.2 ctx).bind fun value? => ih.bind fun fields => ?_
      cases value? <;> exact Expr.adds_pure _

theorem adds_parse? : Expr.Adds (device.parse? env frame) := by
  refine adds_receives.bind fun received => ?_
  split
  · exact Expr.adds_pure _
  · refine (adds_computedFields _).bind fun computed => ?_
    exact ((adds_firstMode? _).bind fun _ => Expr.adds_pure _).bind fun _ => Expr.adds_pure _

theorem adds_payload? (command : String) (value? : Option Value) :
    Expr.Adds (device.payload? env command value?) := by
  unfold payload?
  cases device.entity.command? command with
  | none => exact Expr.adds_pure _
  | some described => exact described.adds_payload? value? device.state env.hosts

end Device

/-! ## Registries -/

namespace Registry

theorem adds_dispatchAll (env : DeviceEnv) (frame : Bytes) (devices : List Device) :
    Expr.Adds (dispatchAll env frame devices) := by
  induction devices with
  | nil => exact Expr.adds_pure _
  | cons device rest ih =>
      rw [dispatchAll]
      refine Device.adds_parse?.bind fun delta? => ?_
      cases delta? <;>
        exact (Expr.adds_pure _).bind fun _ => ih.bind fun _ => Expr.adds_pure _

theorem adds_dispatch (registry : Registry) (frame : Bytes) :
    Expr.Adds (registry.dispatch frame) :=
  (adds_dispatchAll registry.env frame registry.devices).bind fun _ => Expr.adds_pure _

theorem adds_payload? (registry : Registry) (id command : String) (value? : Option Value) :
    Expr.Adds (registry.payload? id command value?) := by
  unfold payload?
  cases registry.find? id with
  | none => exact Expr.adds_pure _
  | some device => exact Device.adds_payload? command value?

end Registry

/-! ## Registration -/

theorem Entity.calls_readSources (sources : List (String × (Expr.Error → EntityFault)))
    (session : Expr.Session) : ((readSources sources).run session).2.calls = session.calls := by
  induction sources generalizing session with
  | nil => rfl
  | cons entry rest ih =>
      rw [readSources, StateT.run_bind, Expr.run_compile]
      cases (session.engine.compile entry.1).1 with
      | error error => rfl
      | ok e => exact ih { session with engine := (session.engine.compile entry.1).2 }

theorem Entity.calls_check (entity : Entity) (session : Expr.Session) :
    (entity.check.run session).2.calls = session.calls := by
  unfold check
  cases entity.validate with
  | error error => rfl
  | ok _ =>
      have hcalls := calls_readSources entity.sources session
      dsimp only
      rw [StateT.run_bind]
      generalize (readSources entity.sources).run session = read at hcalls
      obtain ⟨result, after⟩ := read
      cases result <;> exact hcalls

theorem Registry.calls_registerAll (registry : Registry) (entities : List Entity)
    (session : Expr.Session) :
    ((registry.registerAll entities).run session).2.calls = session.calls := by
  induction entities generalizing registry session with
  | nil => rfl
  | cons entity rest ih =>
      have hcalls := entity.calls_check session
      rw [registerAll, StateT.run_bind]
      generalize entity.check.run session = checked at hcalls
      obtain ⟨result, middle⟩ := checked
      cases result with
      | error error => exact hcalls
      | ok _ =>
          cases registry.register entity with
          | error error => exact hcalls
          | ok next => exact (ih next middle).trans hcalls

end PanelBus
