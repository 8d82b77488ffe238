import PanelBus.Device
import PanelBus.Proofs.Expr.Session
/-!
# What devices read off frames

The fields that a frame gives for a device depend on its state only as far as its expressions do,
and never on the session in which they are evaluated.
-/

namespace PanelBus

open Json (Value Fields)

variable {budget : Expr.Budget} {env : DeviceEnv} {frame : Bytes} {device : Device}
  {state : Fields}

/-! ## Sources -/

theorem Pattern.mem_guardsBackward {source : String} {patterns : List Pattern} :
    source ∈ guardsBackward patterns ↔ ∃ pattern ∈ patterns, source ∈ pattern.guards := by
  induction patterns with
  | nil => exact iff_of_false List.not_mem_nil fun ⟨_, hnone, _⟩ => List.not_mem_nil hnone
  | cons pattern rest ih =>
      rw [guardsBackward, List.mem_append, ih, List.exists_mem_cons_iff, or_comm]

/-- The patterns that decide for modes are those that are checked. -/
theorem Features.patterns_eq_map_modes (features : Features) :
    features.patterns = features.modes.map Prod.snd := by
  cases features <;> rfl

theorem Entity.mem_patterns_of_mode {entity : Entity} {mode : String × Option Pattern}
    {pattern : Pattern} (hmode : mode ∈ entity.features.modes) (h : mode.2 = some pattern) :
    pattern ∈ entity.patterns := by
  apply List.mem_append_left
  rw [Features.patterns_eq_map_modes, List.filterMap_map]
  exact List.mem_filterMap.2 ⟨mode, hmode, h⟩

/-- The sources that frames make a device of the entity evaluate. -/
def Entity.frameSources (entity : Entity) : List String :=
  entity.common.stateLambdas.map Prod.snd ++ Pattern.guardsBackward entity.patterns

theorem Entity.mem_frameSources_of_guard {entity : Entity} {pattern : Pattern} {source : String}
    (hpattern : pattern ∈ entity.patterns) (h : source ∈ pattern.guards) :
    source ∈ entity.frameSources :=
  List.mem_append_right _ (Pattern.mem_guardsBackward.2 ⟨pattern, hpattern, h⟩)

/-! ## Checking -/

namespace Entity

theorem yields_readSources (budget : Expr.Budget)
    (sources : List (String × (Expr.Error → EntityFault))) :
    ∃ result, Expr.Yields budget (readSources sources) result false := by
  induction sources with
  | nil => exact ⟨_, Expr.yields_pure _⟩
  | cons entry rest ih =>
      obtain ⟨source, fault⟩ := entry
      obtain ⟨result, hresult⟩ := ih
      have hcompile := Expr.yields_compile budget source
      cases hread : Expr.parse source with
      | ok e =>
          rw [hread] at hcompile
          exact ⟨result, hcompile.bind hresult⟩
      | error error =>
          rw [hread] at hcompile
          exact ⟨_, hcompile.bind (Expr.yields_pure _)⟩

/-- No session changes whether an entity is usable. -/
theorem yields_check (budget : Expr.Budget) (entity : Entity) :
    ∃ result, Expr.Yields budget entity.check result false := by
  unfold check
  cases entity.validate with
  | error error => exact ⟨_, Expr.yields_pure _⟩
  | ok _ =>
      obtain ⟨result, hresult⟩ := yields_readSources budget entity.sources
      cases result with
      | ok _ => exact ⟨_, hresult.bind (Expr.yields_pure _)⟩
      | error fault => exact ⟨_, hresult.bind (Expr.yields_pure _)⟩

end Entity

/-! ## Patterns -/

namespace Pattern

mutual

theorem alike_matchesFrame {ctx : MatchContext} : ∀ pattern : Pattern,
    (∀ source ∈ pattern.guards, Expr.outcome budget source (.ofFrame frame ctx.state ctx.hosts) =
      Expr.outcome budget source (.ofFrame frame state ctx.hosts)) →
    Expr.Alike budget (pattern.matchesFrame ctx frame)
      (pattern.matchesFrame { ctx with state } frame)
  | ⟨offset, data, mask?, inverted, guard?, except⟩, h => by
      rw [guards] at h
      rw [matchesFrame, matchesFrame]
      have hexcept : ∀ guarded : Bool, Expr.Alike budget
          (if !guarded then pure false else do return !(← anyMatches ctx frame except))
          (if !guarded then pure false else do
            return !(← anyMatches { ctx with state } frame except)) := by
        intro guarded
        cases guarded with
        | false => exact Expr.alike_pure false
        | true =>
            refine (alike_anyMatches except fun source hsource => ?_).bind fun _ =>
              Expr.alike_pure _
            exact h source (List.mem_append_right _ hsource)
      change Expr.Alike budget (if !compares ctx frame _ then _ else _)
        (if !compares ctx frame _ then _ else _)
      split
      · exact Expr.alike_pure _
      · cases guard? with
        | none => exact (Expr.alike_pure true).bind hexcept
        | some source =>
            have hguard := h source (List.mem_append_left _ List.mem_cons_self)
            exact (Expr.alike_evalGuard hguard).bind hexcept

theorem alike_anyMatches {ctx : MatchContext} : ∀ patterns : List Pattern,
    (∀ source ∈ guardsBackward patterns,
      Expr.outcome budget source (.ofFrame frame ctx.state ctx.hosts) =
        Expr.outcome budget source (.ofFrame frame state ctx.hosts)) →
    Expr.Alike budget (anyMatches ctx frame patterns) (anyMatches { ctx with state } frame patterns)
  | [], _ => Expr.alike_pure _
  | pattern :: rest, h => by
      rw [guardsBackward] at h
      rw [anyMatches, anyMatches]
      refine (alike_matchesFrame pattern fun source hsource => ?_).bind fun found => ?_
      · exact h source (List.mem_append_right _ hsource)
      · split
        · exact Expr.alike_pure _
        · exact alike_anyMatches rest fun source hsource =>
            h source (List.mem_append_left _ hsource)

end

end Pattern

/-! ## Devices -/

namespace Device

/-- The sources of the device come to the same with that state. -/
def SameOutcomes (budget : Expr.Budget) (env : DeviceEnv) (frame : Bytes) (device : Device)
    (state : Fields) : Prop :=
  ∀ source ∈ device.entity.frameSources,
    Expr.outcome budget source (.ofFrame frame device.state env.hosts) =
      Expr.outcome budget source (.ofFrame frame state env.hosts)

theorem alike_receives (h : device.SameOutcomes budget env frame state) :
    Expr.Alike budget (device.receives env frame)
      (({ device with state } : Device).receives env frame) := by
  unfold receives
  dsimp only
  cases hpattern : device.entity.common.state? with
  | none => exact Expr.alike_pure _
  | some pattern =>
      refine Pattern.alike_matchesFrame pattern fun source hsource => h source ?_
      refine Entity.mem_frameSources_of_guard ?_ hsource
      unfold Entity.patterns
      rw [hpattern]
      exact List.mem_append_right _ List.mem_cons_self

theorem alike_inMode (h : device.SameOutcomes budget env frame state) {pattern? : Option Pattern}
    (hmode : ∀ pattern, pattern? = some pattern → pattern ∈ device.entity.patterns) :
    Expr.Alike budget (inMode env device frame pattern?)
      (inMode env { device with state } frame pattern?) := by
  unfold inMode
  cases pattern? with
  | none => exact Expr.alike_pure _
  | some pattern =>
      exact Pattern.alike_matchesFrame pattern fun source hsource =>
        h source (Entity.mem_frameSources_of_guard (hmode pattern rfl) hsource)

theorem alike_firstMode? (h : device.SameOutcomes budget env frame state)
    (modes : List (String × Option Pattern))
    (hmodes : ∀ mode ∈ modes, ∀ pattern, mode.2 = some pattern →
      pattern ∈ device.entity.patterns) :
    Expr.Alike budget (firstMode? env device frame modes)
      (firstMode? env { device with state } frame modes) := by
  induction modes with
  | nil => exact Expr.alike_pure _
  | cons mode rest ih =>
      obtain ⟨hfirst, hrest⟩ := List.forall_mem_cons.1 hmodes
      refine (alike_inMode h hfirst).bind fun found => ?_
      split
      · exact Expr.alike_pure _
      · exact ih hrest

theorem alike_computedFields {ctx ctx' : Expr.Context} (lambdas : List (String × String))
    (h : ∀ source ∈ lambdas.map Prod.snd,
      Expr.outcome budget source ctx = Expr.outcome budget source ctx') :
    Expr.Alike budget (computedFields ctx lambdas) (computedFields ctx' lambdas) := by
  induction lambdas with
  | nil => exact Expr.alike_pure _
  | cons entry rest ih =>
      obtain ⟨field, source⟩ := entry
      obtain ⟨hfirst, hrest⟩ := List.forall_mem_cons.1 h
      refine (Expr.alike_evalValue? hfirst).bind fun value? => (ih hrest).bind fun fields => ?_
      cases value? <;> exact Expr.alike_pure _

theorem alike_extract (h : device.SameOutcomes budget env frame state) :
    Expr.Alike budget (device.extract env frame)
      (({ device with state } : Device).extract env frame) := by
  refine (alike_firstMode? h device.entity.features.modes ?_).bind fun _ => Expr.alike_pure _
  exact fun mode hmode pattern hpattern => Entity.mem_patterns_of_mode hmode hpattern

/-- A device reads the same off a frame as with another state, if its sources come to the same. -/
theorem alike_parse? (h : device.SameOutcomes budget env frame state) :
    Expr.Alike budget (device.parse? env frame)
      (({ device with state } : Device).parse? env frame) := by
  refine (alike_receives h).bind fun received => ?_
  split
  · exact Expr.alike_pure _
  · refine (alike_computedFields _ fun source hsource => ?_).bind fun computed =>
      (alike_extract h).bind fun extracted => Expr.alike_pure _
    exact h source (List.mem_append_left _ hsource)

theorem yields_parse? (budget : Expr.Budget) (env : DeviceEnv) (frame : Bytes) (device : Device) :
    Expr.Yields budget (device.parse? env frame)
      ((device.parse? env frame).run { engine := { budget } }).1
      ((device.parse? env frame).run { engine := { budget } }).2.broken := by
  have hself : device.SameOutcomes budget env frame device.state := fun _ _ => rfl
  exact (alike_parse? hself).yields_start

end Device

end PanelBus
