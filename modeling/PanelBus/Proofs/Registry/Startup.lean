import PanelBus.Proofs.Expr.Reading
import PanelBus.Proofs.Registry.Acts
/-!
# What the check before the start covers

An entity lists its sources for the check on its own; a device finds them one by one while it runs.
The list is complete.  Once the check has passed, nothing that a device or a registry is asked to do
reads a source again.
-/

namespace PanelBus

open Json (Value Fields)

variable {engine : Expr.Engine} {source : String}

/-! ## Sources -/

namespace Pattern

/-- The pattern stands in the tree of another one: it is the other one, or it stands in the tree of
one of its exceptions. -/
inductive Within (pattern : Pattern) : Pattern → Prop where
  | self : Within pattern pattern
  | nested {outer exception : Pattern} (hmem : exception ∈ outer.except)
      (h : Within pattern exception) : Within pattern outer

theorem guards_eq (pattern : Pattern) :
    pattern.guards = pattern.guard?.toList ++ guardsBackward pattern.except := by
  cases pattern
  rw [guards]

theorem Within.mem_guards {pattern outer : Pattern} (h : pattern.Within outer)
    (hguard : pattern.guard? = some source) : source ∈ outer.guards := by
  induction h with
  | self =>
      rw [guards_eq, hguard]
      exact List.mem_append_left _ List.mem_cons_self
  | nested hmem h ih =>
      rw [guards_eq]
      apply List.mem_append_right
      exact mem_guardsBackward.2 ⟨_, hmem, ih⟩

end Pattern

/-- Every command that a kind knows is among those that are checked. -/
theorem Features.mem_commands_of_command? {features : Features} {name : String} {command : Command}
    (h : features.command? name = some command) : (name, some command) ∈ features.commands := by
  unfold command? at h
  split at h <;> simp_all [commands]

namespace Entity

variable {entity : Entity}

theorem mem_commands_of_command? {name : String} {command : Command}
    (h : entity.command? name = some command) : (name, command) ∈ entity.commands := by
  refine List.mem_filterMap.2 ⟨(name, some command), ?_, rfl⟩
  unfold command? at h
  split at h
  · next hname =>
    rw [hname, h]
    exact List.mem_append_right _ List.mem_cons_self
  · exact List.mem_append_left _ (Features.mem_commands_of_command? h)

/-- A device of the entity may come to evaluate the source: it computes a state, it is a guard in
the tree of a pattern that frames are compared with, or it makes the payload of a command. -/
inductive Mentions (entity : Entity) (source : String) : Prop where
  | lambda {field : String} (h : (field, source) ∈ entity.common.stateLambdas)
  | base {pattern outer : Pattern} (houter : entity.common.state? = some outer)
      (hwithin : pattern.Within outer) (hguard : pattern.guard? = some source)
  | mode {name : String} {pattern outer : Pattern}
      (houter : (name, some outer) ∈ entity.features.modes)
      (hwithin : pattern.Within outer) (hguard : pattern.guard? = some source)
  | command {name : String} {command : Command} (h : entity.command? name = some command)
      (hlambda : command.lambda? = some source)

theorem Mentions.mem_sources (h : entity.Mentions source) :
    source ∈ entity.sources.map Prod.fst := by
  have hguards : ∀ outer ∈ entity.patterns, source ∈ outer.guards →
      source ∈ entity.sources.map Prod.fst := by
    intro outer houter hsource
    refine List.mem_map.2 ⟨(source, .guardSource), ?_, rfl⟩
    refine List.mem_append_left _ (List.mem_append_right _ (List.mem_map.2 ⟨source, ?_, rfl⟩))
    exact Pattern.mem_guardsBackward.2 ⟨outer, houter, hsource⟩
  cases h with
  | @lambda field h =>
      refine List.mem_map.2 ⟨(source, .stateLambda field), ?_, rfl⟩
      refine List.mem_append_left _ (List.mem_append_left _ ?_)
      exact List.mem_map.2 ⟨(field, source), h, rfl⟩
  | @base pattern outer houter hwithin hguard =>
      refine hguards outer (List.mem_append_right _ ?_) (hwithin.mem_guards hguard)
      rw [houter]
      exact List.mem_cons_self
  | @mode name pattern outer houter hwithin hguard =>
      exact hguards outer (mem_patterns_of_mode houter rfl) (hwithin.mem_guards hguard)
  | @command name command h hlambda =>
      refine List.mem_map.2 ⟨(source, .commandLambda), List.mem_append_right _ ?_, rfl⟩
      refine List.mem_filterMap.2 ⟨(name, command), mem_commands_of_command? h, ?_⟩
      dsimp only
      rw [hlambda]
      rfl

/-! ## The check -/

/-- The engine keeps trees of all sources that a device of the entity may come to evaluate. -/
def Prepared (entity : Entity) (engine : Expr.Engine) : Prop :=
  ∀ source, entity.Mentions source → engine.Keeps source

theorem Prepared.grown {later : Expr.Engine} (h : entity.Prepared engine)
    (hlater : engine.Grown later) : entity.Prepared later :=
  fun source hsource => hlater source (h source hsource)

theorem readSources_spec (sources : List (String × (Expr.Error → EntityFault)))
    (session : Expr.Session) :
    session.engine.Grown ((readSources sources).run session).2.engine ∧
      (((readSources sources).run session).1 = .ok () →
        ∀ source ∈ sources.map Prod.fst,
          ((readSources sources).run session).2.engine.Keeps source) := by
  induction sources generalizing session with
  | nil => exact ⟨session.engine.grown_refl, fun _ _ hnone => absurd hnone List.not_mem_nil⟩
  | cons entry rest ih =>
      obtain ⟨first, fault⟩ := entry
      have hgrown := session.engine.grown_compile first
      rw [readSources, StateT.run_bind, Expr.run_compile]
      cases hread : (session.engine.compile first).1 with
      | error error => exact ⟨hgrown, nofun⟩
      | ok e =>
          obtain ⟨hlater, hrest⟩ :=
            ih { session with engine := (session.engine.compile first).2 }
          refine ⟨hgrown.trans hlater, fun hok => List.forall_mem_cons.2 ⟨?_, hrest hok⟩⟩
          exact hlater first (Expr.Engine.keeps_of_compile hread)

theorem check_spec (entity : Entity) (session : Expr.Session) :
    session.engine.Grown (entity.check.run session).2.engine ∧
      ((entity.check.run session).1 = .ok () →
        entity.Prepared (entity.check.run session).2.engine) := by
  unfold check
  cases entity.validate with
  | error error => exact ⟨session.engine.grown_refl, nofun⟩
  | ok _ =>
      obtain ⟨hgrown, hkeeps⟩ := readSources_spec entity.sources session
      dsimp only
      rw [StateT.run_bind]
      generalize (readSources entity.sources).run session = read at hgrown hkeeps
      obtain ⟨result, after⟩ := read
      cases result with
      | error fault => exact ⟨hgrown, nofun⟩
      | ok _ => exact ⟨hgrown, fun _ source hsource => hkeeps rfl source hsource.mem_sources⟩

end Entity

/-! ## Patterns -/

namespace Pattern

variable {ctx : MatchContext} {frame : Bytes}

/-- The engine keeps trees of all guards in the tree of the pattern. -/
def Prepared (outer : Pattern) (engine : Expr.Engine) : Prop :=
  ∀ (pattern : Pattern) (source : String), pattern.Within outer →
    pattern.guard? = some source → engine.Keeps source

mutual

theorem readsNothing_matchesFrame : ∀ pattern : Pattern, pattern.Prepared engine →
    Expr.ReadsNothing engine (pattern.matchesFrame ctx frame)
  | ⟨offset, data, mask?, inverted, guard?, except⟩, h => by
      rw [matchesFrame]
      have hexcept : ∀ guarded : Bool, Expr.ReadsNothing engine
          (if !guarded then pure false else do return !(← anyMatches ctx frame except)) := by
        intro guarded
        cases guarded with
        | false => exact Expr.readsNothing_pure false
        | true =>
            refine (readsNothing_anyMatches except fun exception hmem => ?_).bind fun _ =>
              Expr.readsNothing_pure _
            exact fun pattern source hwithin => h pattern source (.nested hmem hwithin)
      dsimp only
      split
      · exact Expr.readsNothing_pure _
      · cases guard? with
        | none => exact (Expr.readsNothing_pure true).bind hexcept
        | some source => exact (Expr.readsNothing_evalGuard (h _ source .self rfl) _).bind hexcept

theorem readsNothing_anyMatches : ∀ patterns : List Pattern,
    (∀ pattern ∈ patterns, pattern.Prepared engine) →
    Expr.ReadsNothing engine (anyMatches ctx frame patterns)
  | [], _ => Expr.readsNothing_pure _
  | pattern :: rest, h => by
      obtain ⟨hfirst, hrest⟩ := List.forall_mem_cons.1 h
      rw [anyMatches]
      refine (readsNothing_matchesFrame pattern hfirst).bind fun found => ?_
      split
      · exact Expr.readsNothing_pure _
      · exact readsNothing_anyMatches rest hrest

end

end Pattern

/-! ## Devices -/

theorem Command.readsNothing_payload? {command : Command}
    (h : ∀ source, command.lambda? = some source → engine.Keeps source) (value? : Option Value)
    (state : Fields) (hosts : NameMap Expr.HostFunction) :
    Expr.ReadsNothing engine (command.payload? value? state hosts) := by
  unfold payload?
  split
  · cases hlambda : command.lambda? with
    | none => exact Expr.readsNothing_pure _
    | some source =>
        exact (Expr.readsNothing_evalValue? (h source hlambda) _).bind fun _ =>
          Expr.readsNothing_pure _
  · exact Expr.readsNothing_pure _

namespace Device

variable {device : Device} {env : DeviceEnv} {frame : Bytes}

theorem readsNothing_receives (h : device.entity.Prepared engine) :
    Expr.ReadsNothing engine (device.receives env frame) := by
  unfold receives
  cases hpattern : device.entity.common.state? with
  | none => exact Expr.readsNothing_pure _
  | some outer =>
      refine Pattern.readsNothing_matchesFrame outer fun pattern source hwithin hguard => ?_
      exact h source (.base hpattern hwithin hguard)

theorem readsNothing_firstMode? (modes : List (String × Option Pattern))
    (h : ∀ mode ∈ modes, ∀ outer, mode.2 = some outer → outer.Prepared engine) :
    Expr.ReadsNothing engine (firstMode? env device frame modes) := by
  induction modes with
  | nil => exact Expr.readsNothing_pure _
  | cons mode rest ih =>
      obtain ⟨name, pattern?⟩ := mode
      obtain ⟨hfirst, hrest⟩ := List.forall_mem_cons.1 h
      have hmode : Expr.ReadsNothing engine (inMode env device frame pattern?) := by
        unfold inMode
        cases pattern? with
        | none => exact Expr.readsNothing_pure _
        | some outer => exact Pattern.readsNothing_matchesFrame outer (hfirst outer rfl)
      refine hmode.bind fun found => ?_
      split
      · exact Expr.readsNothing_pure _
      · exact ih hrest

theorem readsNothing_computedFields {ctx : Expr.Context} (lambdas : List (String × String))
    (h : ∀ entry ∈ lambdas, engine.Keeps entry.2) :
    Expr.ReadsNothing engine (computedFields ctx lambdas) := by
  induction lambdas with
  | nil => exact Expr.readsNothing_pure _
  | cons entry rest ih =>
      obtain ⟨hfirst, hrest⟩ := List.forall_mem_cons.1 h
      refine (Expr.readsNothing_evalValue? hfirst ctx).bind fun value? =>
        (ih hrest).bind fun fields => ?_
      cases value? <;> exact Expr.readsNothing_pure _

theorem readsNothing_parse? (h : device.entity.Prepared engine) :
    Expr.ReadsNothing engine (device.parse? env frame) := by
  refine (readsNothing_receives h).bind fun received => ?_
  split
  · exact Expr.readsNothing_pure _
  · have hlambdas : ∀ entry ∈ device.entity.common.stateLambdas, engine.Keeps entry.2 :=
      fun entry hentry => h entry.2 (.lambda hentry)
    have hmodes : ∀ mode ∈ device.entity.features.modes, ∀ outer, mode.2 = some outer →
        outer.Prepared engine := by
      intro mode hmode outer houter pattern source hwithin hguard
      obtain ⟨name, pattern?⟩ := mode
      obtain rfl : pattern? = some outer := houter
      exact h source (.mode hmode hwithin hguard)
    exact (readsNothing_computedFields _ hlambdas).bind fun _ =>
      ((readsNothing_firstMode? _ hmodes).bind fun _ => Expr.readsNothing_pure _).bind fun _ =>
        Expr.readsNothing_pure _

theorem readsNothing_payload? (h : device.entity.Prepared engine) (command : String)
    (value? : Option Value) : Expr.ReadsNothing engine (device.payload? env command value?) := by
  unfold payload?
  cases hcommand : device.entity.command? command with
  | none => exact Expr.readsNothing_pure _
  | some described =>
      have hlambda : ∀ source, described.lambda? = some source → engine.Keeps source :=
        fun source hlambda => h source (.command hcommand hlambda)
      exact Command.readsNothing_payload? hlambda value? device.state env.hosts

theorem entity_applyDelta (device : Device) (delta : Fields) :
    (Registry.applyDelta device delta).2.entity = device.entity := by
  unfold Registry.applyDelta
  dsimp only
  split <;> rfl

theorem TakeAll.entities_eq {devices nexts : List Device} {changes : List StateChange}
    (h : TakeAll devices changes nexts) :
    nexts.map Device.entity = devices.map Device.entity := by
  induction h with
  | nil => rfl
  | cons h hrest ih =>
      rw [List.map_cons, List.map_cons, ih]
      cases h <;> rfl

end Device

/-! ## Registries -/

namespace Registry

/-- The engine keeps trees of all sources that the devices may come to evaluate. -/
def Prepared (registry : Registry) (engine : Expr.Engine) : Prop :=
  ∀ entity ∈ registry.devices.map Device.entity, entity.Prepared engine

variable {registry : Registry}

theorem Prepared.device {device : Device} {id : String} (h : registry.Prepared engine)
    (hdevice : registry.find? id = some device) : device.entity.Prepared engine :=
  h _ (List.mem_map_of_mem (List.mem_of_find?_eq_some hdevice))

/-! ### Construction -/

theorem entities_register {entity : Entity} {next : Registry}
    (h : registry.register entity = .ok next) :
    next.devices.map Device.entity = registry.devices.map Device.entity ++ [entity] := by
  unfold register at h
  dsimp only at h
  split at h
  · cases h
  · obtain rfl := Except.ok.inj h
    rw [List.map_append]
    rfl

/-- Registering entities prepares the engine for them and for the devices before them. -/
theorem registerAll_spec (entities : List Entity) {session after : Expr.Session}
    (h : registry.Prepared session.engine) {final : Registry}
    (hrun : (registry.registerAll entities).run session = (.ok final, after)) :
    final.Prepared after.engine ∧
      final.devices.map Device.entity = registry.devices.map Device.entity ++ entities := by
  induction entities generalizing registry session with
  | nil =>
      cases hrun
      exact ⟨h, (List.append_nil _).symm⟩
  | cons entity rest ih =>
      obtain ⟨hgrown, hprepared⟩ := entity.check_spec session
      rw [registerAll, StateT.run_bind] at hrun
      generalize entity.check.run session = checked at hgrown hprepared hrun
      obtain ⟨result, middle⟩ := checked
      cases result with
      | error error => cases hrun
      | ok _ =>
          cases hregister : registry.register entity with
          | error error =>
              rw [hregister] at hrun
              cases hrun
          | ok next =>
              have hentities := entities_register hregister
              have hnext : next.Prepared middle.engine := by
                intro other hother
                rw [hentities] at hother
                rcases List.mem_append.1 hother with hbefore | hnew
                · exact (h other hbefore).grown hgrown
                · obtain rfl := List.mem_singleton.1 hnew
                  exact hprepared rfl
              rw [hregister] at hrun
              obtain ⟨hall, hothers⟩ := ih hnext hrun
              rw [hentities, List.append_assoc] at hothers
              exact ⟨hall, hothers⟩

/-! ### Use -/

/-- What a registry can be asked for. -/
inductive Use where
  /-- Whether a device receives a frame. -/
  | receives (id : String) (frame : Bytes)
  /-- What a device reads off a frame. -/
  | parse (id : String) (frame : Bytes)
  /-- The payload of a command. -/
  | payload (id command : String) (value? : Option Value)
  /-- A frame for all devices, or a command whose implied state is taken over. -/
  | act (act : Act)

/-- The registry after it was used. -/
def use (registry : Registry) : Use → Expr.SessionM Registry
  | .receives id frame => do
    match registry.find? id with
    | none => return registry
    | some device =>
      let _ ← device.receives registry.env frame
      return registry
  | .parse id frame => do
    match registry.find? id with
    | none => return registry
    | some device =>
      let _ ← device.parse? registry.env frame
      return registry
  | .payload id command value? => do
    let _ ← registry.payload? id command value?
    return registry
  | .act act => do
    let (_, registry) ← registry.perform act
    return registry

/-- The registry after it was used several times. -/
def useAll (registry : Registry) : List Use → Expr.SessionM Registry
  | [] => return registry
  | use :: rest => do
    let registry ← registry.use use
    registry.useAll rest

theorem readsNothing_dispatchAll {env : DeviceEnv} {frame : Bytes} (devices : List Device)
    (h : ∀ device ∈ devices, device.entity.Prepared engine) :
    Expr.ReadsNothing engine (dispatchAll env frame devices) := by
  induction devices with
  | nil => exact Expr.readsNothing_pure _
  | cons device rest ih =>
      obtain ⟨hfirst, hrest⟩ := List.forall_mem_cons.1 h
      rw [dispatchAll]
      refine (Device.readsNothing_parse? hfirst).bind fun delta? => ?_
      cases delta? with
      | none =>
          exact (Expr.readsNothing_pure _).bind fun _ => (ih hrest).bind fun _ =>
            Expr.readsNothing_pure _
      | some delta =>
          exact (Expr.readsNothing_pure _).bind fun _ => (ih hrest).bind fun _ =>
            Expr.readsNothing_pure _

theorem readsNothing_perform (h : registry.Prepared engine) (act : Act) :
    Expr.ReadsNothing engine (registry.perform act) := by
  cases act with
  | frame frame =>
      have hdevices : ∀ device ∈ registry.devices, device.entity.Prepared engine :=
        fun device hdevice => h _ (List.mem_map_of_mem hdevice)
      exact (readsNothing_dispatchAll _ hdevices).bind fun _ => Expr.readsNothing_pure _
  | optimistic id command value? => exact Expr.readsNothing_pure _

theorem readsNothing_use (h : registry.Prepared engine) (use : Use) :
    Expr.ReadsNothing engine (registry.use use) := by
  unfold Registry.use
  cases use with
  | receives id frame =>
      dsimp only
      cases hdevice : registry.find? id with
      | none => exact Expr.readsNothing_pure _
      | some device =>
          exact (Device.readsNothing_receives (h.device hdevice)).bind fun _ =>
            Expr.readsNothing_pure _
  | parse id frame =>
      dsimp only
      cases hdevice : registry.find? id with
      | none => exact Expr.readsNothing_pure _
      | some device =>
          exact (Device.readsNothing_parse? (h.device hdevice)).bind fun _ =>
            Expr.readsNothing_pure _
  | payload id command value? =>
      have hpayload : Expr.ReadsNothing engine (registry.payload? id command value?) := by
        unfold payload?
        cases hdevice : registry.find? id with
        | none => exact Expr.readsNothing_pure _
        | some device => exact Device.readsNothing_payload? (h.device hdevice) command value?
      exact hpayload.bind fun _ => Expr.readsNothing_pure _
  | act act => exact (readsNothing_perform h act).bind fun _ => Expr.readsNothing_pure _

theorem entities_applyOptimistic (registry : Registry) (id command : String)
    (value? : Option Value) :
    (registry.applyOptimistic id command value?).2.devices.map Device.entity =
      registry.devices.map Device.entity := by
  unfold applyOptimistic
  cases registry.find? id with
  | none => rfl
  | some device =>
      dsimp only
      cases device.optimisticDelta? command value? with
      | none => rfl
      | some delta =>
          dsimp only [update]
          rw [List.map_map]
          refine List.map_congr_left fun other _ => ?_
          dsimp only [Function.comp_apply]
          split
          · exact Device.entity_applyDelta other delta
          · rfl

/-- No use changes the entities of the devices. -/
theorem entities_use (registry : Registry) (use : Use) (session : Expr.Session) :
    ((registry.use use).run session).1.devices.map Device.entity =
      registry.devices.map Device.entity := by
  unfold Registry.use
  cases use with
  | receives id frame | parse id frame =>
      dsimp only
      cases registry.find? id <;> rfl
  | payload id command value? => rfl
  | act act =>
      cases act with
      | frame frame => exact (takeAll_dispatch registry frame session).entities_eq
      | optimistic id command value? => exact entities_applyOptimistic registry id command value?

theorem readsNothing_useAll (h : registry.Prepared engine) (uses : List Use) :
    Expr.ReadsNothing engine (registry.useAll uses) := by
  induction uses generalizing registry with
  | nil => exact Expr.readsNothing_pure _
  | cons use rest ih =>
      have hnext : ∀ session : Expr.Session,
          ((registry.use use).run session).1.Prepared engine := by
        intro session entity hentity
        rw [entities_use] at hentity
        exact h entity hentity
      exact (readsNothing_use h use).bind_of _ hnext fun next hprepared => ih hprepared

/-- The check before the start is complete.  It keeps the tree of every source that a device of the
entity may come to evaluate; from then on, whatever is asked of a device of the entity in whatever
state, or of a registry whose entities were checked, no evaluation fails at a text and the engine
stays as it is. -/
theorem startup_check_complete :
    (∀ (entity : Entity) (session opened : Expr.Session),
      entity.check.run session = (.ok (), opened) →
      (∀ source, entity.Mentions source → opened.engine.Keeps source) ∧
      ∀ engine, opened.engine.Grown engine → ∀ (device : Device) (env : DeviceEnv),
        device.entity = entity →
        (∀ frame, Expr.ReadsNothing engine (device.receives env frame) ∧
          Expr.ReadsNothing engine (device.parse? env frame)) ∧
        ∀ command value?, Expr.ReadsNothing engine (device.payload? env command value?)) ∧
    (∀ (env : DeviceEnv) (entities : List Entity) (session opened : Expr.Session)
        (registry : Registry),
      (ofEntities env entities).run session = (.ok registry, opened) →
      (∀ entity ∈ entities, ∀ source, entity.Mentions source → opened.engine.Keeps source) ∧
      ∀ uses, Expr.ReadsNothing opened.engine (registry.useAll uses)) := by
  constructor
  · intro entity session opened hrun
    have hprepared := (entity.check_spec session).2
    rw [hrun] at hprepared
    refine ⟨hprepared rfl, ?_⟩
    rintro engine hgrown device env rfl
    have hlater := (hprepared rfl).grown hgrown
    refine ⟨fun frame => ⟨Device.readsNothing_receives hlater, ?_⟩, fun command value? => ?_⟩
    · exact Device.readsNothing_parse? hlater
    · exact Device.readsNothing_payload? hlater command value?
  · intro env entities session opened registry hrun
    have hempty : Prepared { env } session.engine := fun _ hnone => absurd hnone List.not_mem_nil
    obtain ⟨hprepared, hentities⟩ := registerAll_spec entities hempty hrun
    refine ⟨fun entity hentity => hprepared entity ?_, readsNothing_useAll hprepared⟩
    rw [hentities]
    exact hentity

/-- A thermostat with an exception of an exception whose guard looks at the state. -/
def thermostat : Entity where
  common :=
    { id := "hall"
      state? := some { data := [0x30], guard? := some "data[1] > 0" }
      stateLambdas := [("humid", "data[2] > 60")]
      update? := some { lambda? := some "[48, 0]" } }
  features := .climate
    { heat? := some
        { except := [{ except := [{ offset := 3, data := [0x01], guard? := some "state.mode" }] }] }
      setTarget? := some { lambda? := some "[49, int(value)]" } }

theorem startup_check_complete_thermostat :
    (∃ opened, thermostat.check.run {} = (.ok (), opened) ∧
      (∀ source ∈ ["data[1] > 0", "data[2] > 60", "[48, 0]", "state.mode", "[49, int(value)]"],
        opened.engine.Keeps source)) ∧
    ∃ registry opened, (ofEntities {} [thermostat]).run {} = (.ok registry, opened) ∧
      Expr.ReadsNothing opened.engine
        (registry.useAll [.act (.frame [0x30, 1, 2, 1]), .payload "hall" "temperature" none]) := by
  constructor
  · have hpasses : (thermostat.check.run {}).1.isOk = true := by decide +kernel
    generalize hopened : thermostat.check.run {} = checked at hpasses
    obtain ⟨result, opened⟩ := checked
    obtain ⟨⟩ | ⟨⟨⟩⟩ := result
    · cases hpasses
    refine ⟨opened, rfl, ?_⟩
    have hkeeps := (startup_check_complete.1 thermostat {} opened hopened).1
    let innermost : Pattern := { offset := 3, data := [0x01], guard? := some "state.mode" }
    have hdeep : innermost.Within { except := [{ except := [innermost] }] } :=
      .nested (.head _) (.nested (.head _) .self)
    intro source hsource
    simp only [List.mem_cons, List.not_mem_nil, or_false] at hsource
    rcases hsource with rfl | rfl | rfl | rfl | rfl
    · exact hkeeps _ (.base rfl .self rfl)
    · exact hkeeps _ (.lambda (.head _))
    · exact hkeeps _ (@Entity.Mentions.command _ _ "update" _ rfl rfl)
    · exact hkeeps _ (@Entity.Mentions.mode _ _ "heat" _ _ (.tail _ (.head _)) hdeep rfl)
    · exact hkeeps _ (@Entity.Mentions.command _ _ "temperature" _ rfl rfl)
  · have hregisters : ((ofEntities {} [thermostat]).run {}).1.isOk = true := by decide +kernel
    generalize hopened : (ofEntities {} [thermostat]).run {} = registered at hregisters
    obtain ⟨_ | registry, opened⟩ := registered
    · cases hregisters
    exact ⟨registry, opened, rfl, (startup_check_complete.2 {} _ {} opened registry hopened).2 _⟩

end Registry

end PanelBus
