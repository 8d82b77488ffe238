import PanelBus.Proofs.Gateway.History
/-!
# Gateways that differ in a flag

Whether the state of a device is taken to change with a command is a flag of its entity.  Nothing
reads the flag but a command for that device, and it matters to none that implies no change.
-/

namespace PanelBus

open Json (Value Fields)

/-- The entity with the flag set if it is the one of that id. -/
def Entity.withOptimistic (id : String) (flag : Bool) (entity : Entity) : Entity :=
  { entity with
    common := { entity.common with
      optimistic := if entity.common.id = id then flag else entity.common.optimistic } }

def GatewayConfig.withOptimistic (id : String) (flag : Bool) (config : GatewayConfig) :
    GatewayConfig :=
  { config with entities := config.entities.map (Entity.withOptimistic id flag) }

def Device.withOptimistic (id : String) (flag : Bool) (device : Device) : Device :=
  { device with entity := device.entity.withOptimistic id flag }

def Registry.withOptimistic (id : String) (flag : Bool) (registry : Registry) : Registry :=
  { registry with devices := registry.devices.map (Device.withOptimistic id flag) }

def Gateway.withOptimistic (id : String) (flag : Bool) (gateway : Gateway) : Gateway :=
  { gateway with registry := gateway.registry.withOptimistic id flag }

variable {id : String} {flag : Bool}

namespace Entity

theorem check_withOptimistic (entity : Entity) :
    (entity.withOptimistic id flag).check = entity.check := rfl

theorem withOptimistic_withOptimistic (entity : Entity) (other : Bool) :
    (entity.withOptimistic id flag).withOptimistic id other = entity.withOptimistic id other := by
  unfold withOptimistic
  split <;> rfl

end Entity

theorem GatewayConfig.withOptimistic_withOptimistic (config : GatewayConfig) (other : Bool) :
    (config.withOptimistic id flag).withOptimistic id other = config.withOptimistic id other := by
  unfold withOptimistic
  dsimp only
  rw [List.map_map]
  congr 1
  exact List.map_congr_left fun entity _ => entity.withOptimistic_withOptimistic other

namespace Device

theorem firstMode?_withOptimistic (env : DeviceEnv) (device : Device) (frame : Bytes)
    (modes : List (String × Option Pattern)) :
    firstMode? env (device.withOptimistic id flag) frame modes =
      firstMode? env device frame modes := by
  induction modes with
  | nil => rfl
  | cons mode rest ih =>
      unfold firstMode?
      rw [ih]
      rfl

theorem parse?_withOptimistic (env : DeviceEnv) (device : Device) (frame : Bytes) :
    (device.withOptimistic id flag).parse? env frame = device.parse? env frame := by
  unfold parse? extract
  rw [firstMode?_withOptimistic]
  rfl

theorem optimisticDelta?_withOptimistic {device : Device} (hid : device.id ≠ id) (command : String)
    (value? : Option Value) :
    (device.withOptimistic id flag).optimisticDelta? command value? =
      device.optimisticDelta? command value? := by
  have hne : device.entity.common.id ≠ id := hid
  unfold optimisticDelta? Entity.optimistic?
  simp only [withOptimistic, Entity.withOptimistic, hne, if_false]

end Device

namespace Registry

variable (registry : Registry)

theorem find?_withOptimistic (name : String) :
    (registry.withOptimistic id flag).find? name =
      (registry.find? name).map (Device.withOptimistic id flag) := by
  unfold find? withOptimistic
  rw [List.find?_map]
  rfl

theorem applyDelta_withOptimistic (device : Device) (delta : Fields) :
    applyDelta (device.withOptimistic id flag) delta =
      ((applyDelta device delta).1, (applyDelta device delta).2.withOptimistic id flag) := by
  have hstate : (device.withOptimistic id flag).state = device.state := rfl
  unfold applyDelta Device.merge
  dsimp only
  rw [hstate]
  split <;> rfl

theorem dispatchAll_withOptimistic (env : DeviceEnv) (frame : Bytes) (devices : List Device)
    (session : Expr.Session) :
    (dispatchAll env frame (devices.map (Device.withOptimistic id flag))).run session =
      let dispatched := (dispatchAll env frame devices).run session
      ((dispatched.1.1, dispatched.1.2.map (Device.withOptimistic id flag)), dispatched.2) := by
  induction devices generalizing session with
  | nil => rfl
  | cons device rest ih =>
      rw [List.map_cons, run_dispatchAll_cons, run_dispatchAll_cons,
        Device.parse?_withOptimistic]
      generalize (device.parse? env frame).run session = parsed
      obtain ⟨delta?, middle⟩ := parsed
      dsimp only
      rw [ih]
      cases delta? with
      | none => rfl
      | some delta =>
          rw [Option.elim_some, Option.elim_some, applyDelta_withOptimistic]
          rfl

theorem dispatch_withOptimistic (frame : Bytes) (session : Expr.Session) :
    ((registry.withOptimistic id flag).dispatch frame).run session =
      let dispatched := (registry.dispatch frame).run session
      ((dispatched.1.1, dispatched.1.2.withOptimistic id flag), dispatched.2) := by
  have hall : (dispatchAll registry.env frame
      (registry.devices.map (Device.withOptimistic id flag))).run session = _ :=
    dispatchAll_withOptimistic _ _ _ _
  unfold dispatch
  rw [StateT.run_bind, StateT.run_bind]
  unfold withOptimistic
  dsimp only at hall ⊢
  rw [hall]
  rfl

theorem register_withOptimistic (entity : Entity) :
    (registry.withOptimistic id flag).register (entity.withOptimistic id flag) =
      (registry.register entity).map (withOptimistic id flag) := by
  have hid : (entity.withOptimistic id flag).common.id = entity.common.id := rfl
  unfold register
  dsimp only
  rw [hid, find?_withOptimistic, Option.isSome_map]
  split
  · rfl
  · refine congrArg Except.ok ?_
    unfold withOptimistic
    rw [List.map_append]
    rfl

theorem registerAll_withOptimistic (entities : List Entity) (session : Expr.Session) :
    ((registry.withOptimistic id flag).registerAll
        (entities.map (Entity.withOptimistic id flag))).run session =
      let registered := (registry.registerAll entities).run session
      (registered.1.map (withOptimistic id flag), registered.2) := by
  induction entities generalizing registry session with
  | nil => rfl
  | cons entity rest ih =>
      rw [List.map_cons]
      unfold registerAll
      rw [StateT.run_bind, StateT.run_bind, Entity.check_withOptimistic, register_withOptimistic]
      generalize entity.check.run session = checked
      obtain ⟨result, middle⟩ := checked
      cases result with
      | error error => rfl
      | ok _ =>
          cases registry.register entity with
          | error error => rfl
          | ok grown => exact ih grown middle

/-! ## What a command implies -/

variable {registry} {name command : String} {value? : Option Value}

/-- The flag does not matter to commands for other devices. -/
theorem applyOptimistic_of_ne (hne : name ≠ id) :
    (registry.withOptimistic id flag).applyOptimistic name command value? =
      ((registry.applyOptimistic name command value?).1,
        (registry.applyOptimistic name command value?).2.withOptimistic id flag) := by
  unfold applyOptimistic
  rw [find?_withOptimistic]
  cases hdevice : registry.find? name with
  | none => rfl
  | some device =>
      have hid : device.id ≠ id := id_of_find? hdevice ▸ hne
      rw [Option.map_some]
      dsimp only
      rw [Device.optimisticDelta?_withOptimistic hid]
      cases device.optimisticDelta? command value? with
      | none => rfl
      | some delta =>
          dsimp only
          rw [applyDelta_withOptimistic]
          refine congrArg (Prod.mk _) ?_
          unfold update withOptimistic
          dsimp only
          rw [List.map_map, List.map_map]
          congr 1
          refine List.map_congr_left ?_
          intro other _
          have hsame : (other.withOptimistic id flag).id = other.id := rfl
          rw [Function.comp_apply, Function.comp_apply, hsame, applyDelta_withOptimistic]
          split <;> rfl

theorem applyOptimistic_of_plain (hplain : registry.withOptimistic id false = registry) :
    registry.applyOptimistic id command value? = (none, registry) := by
  unfold applyOptimistic
  cases hdevice : registry.find? id with
  | none => rfl
  | some device =>
      have hid : device.entity.common.id = id := id_of_find? hdevice
      have hfixed : (registry.find? id).map (Device.withOptimistic id false) =
          registry.find? id := by
        rw [← find?_withOptimistic, hplain]
      rw [hdevice] at hfixed
      have hdelta : device.optimisticDelta? command value? = none := by
        rw [← Option.some.inj hfixed]
        unfold Device.optimisticDelta? Entity.optimistic?
        simp only [Device.withOptimistic, Entity.withOptimistic, hid, if_true, Bool.false_eq_true,
          if_false, Option.map_none]
      dsimp only
      rw [hdelta]

/-- A command that implies no change leaves the registry as it is. -/
theorem applyOptimistic_of_none (hdistinct : registry.Distinct)
    (hnone : (registry.applyOptimistic name command value?).1 = none) :
    (registry.applyOptimistic name command value?).2 = registry := by
  have hall := takeAll_applyOptimistic hdistinct name command value?
  rw [hnone] at hall
  have hdevices := hall.eq_of_nil
  have henv : (registry.applyOptimistic name command value?).2.env = registry.env := by
    unfold applyOptimistic
    split
    · rfl
    · split <;> rfl
  generalize (registry.applyOptimistic name command value?).2 = next at hdevices henv
  cases next
  cases registry
  cases hdevices
  cases henv
  rfl

theorem lacks_applyOptimistic (hplain : registry.withOptimistic id false = registry) :
    (registry.applyOptimistic name command value?).2.withOptimistic id false =
      (registry.applyOptimistic name command value?).2 := by
  by_cases hname : name = id
  · rw [hname, applyOptimistic_of_plain hplain, hplain]
  · have hsame : (registry.withOptimistic id false).applyOptimistic name command value? = _ :=
      applyOptimistic_of_ne hname
    rw [hplain] at hsame
    exact (congrArg Prod.snd hsame).symm

theorem Distinct.withOptimistic (h : registry.Distinct) :
    (registry.withOptimistic id flag).Distinct := by
  unfold Distinct Registry.withOptimistic
  rw [List.map_map]
  exact h

/-- The flag does not matter to a command that implies no change. -/
theorem applyOptimistic_of_quiet (hplain : registry.withOptimistic id false = registry)
    (hdistinct : registry.Distinct)
    (hquiet : name = id →
      ((registry.withOptimistic id true).applyOptimistic name command value?).1 = none) :
    (registry.withOptimistic id true).applyOptimistic name command value? =
      ((registry.applyOptimistic name command value?).1,
        (registry.applyOptimistic name command value?).2.withOptimistic id true) := by
  by_cases hname : name = id
  · have hnone := hquiet hname
    have hsame := applyOptimistic_of_none hdistinct.withOptimistic hnone
    rw [Prod.ext_iff, hnone, hsame, hname, applyOptimistic_of_plain hplain]
    exact ⟨rfl, rfl⟩
  · exact applyOptimistic_of_ne hname

end Registry

namespace Gateway

variable {plain eager : Gateway}

theorem dispatch_withOptimistic (gateway : Gateway) (frame : Bytes) :
    (gateway.withOptimistic id flag).dispatch frame =
      ((gateway.dispatch frame).1, (gateway.dispatch frame).2.withOptimistic id flag) := by
  have hdispatch : ((gateway.registry.withOptimistic id flag).dispatch frame).run
      gateway.session = _ := Registry.dispatch_withOptimistic _ _ _
  unfold dispatch withOptimistic
  dsimp only at hdispatch ⊢
  rw [hdispatch]
  generalize (gateway.registry.dispatch frame).run gateway.session = dispatched
  obtain ⟨⟨changes, registry⟩, session⟩ := dispatched
  dsimp only
  split <;> rfl

theorem registry_find?_withOptimistic (gateway : Gateway) (name : String) :
    (gateway.withOptimistic id flag).registry.find? name =
      (gateway.registry.find? name).map (Device.withOptimistic id flag) :=
  Registry.find?_withOptimistic _ _

theorem frame_withOptimistic (gateway : Gateway) (command : DeviceCommand) :
    (gateway.withOptimistic id flag).frame command =
      ((gateway.frame command).1, (gateway.frame command).2.withOptimistic id flag) := by
  have hpayload : (gateway.registry.withOptimistic id flag).payload? command.deviceId
      command.command command.value? =
      gateway.registry.payload? command.deviceId command.command command.value? := by
    unfold Registry.payload?
    rw [Registry.find?_withOptimistic]
    cases gateway.registry.find? command.deviceId with
    | none => rfl
    | some device => rfl
  unfold frame withOptimistic
  dsimp only
  rw [hpayload]
  rfl

/-- To the queue the flag does not matter at all, and to the rest of the gateway it does not unless
the registry takes the command otherwise. -/
theorem submit_withOptimistic (gateway : Gateway) (command : DeviceCommand) :
    ((gateway.withOptimistic id flag).submit command).1 = (gateway.submit command).1 ∧
      ((gateway.withOptimistic id flag).submit command).2.queue =
        (gateway.submit command).2.queue ∧
      ((gateway.framed command = true →
        (gateway.registry.withOptimistic id flag).applyOptimistic command.deviceId command.command
            command.value? =
          ((gateway.registry.applyOptimistic command.deviceId command.command command.value?).1,
            (gateway.registry.applyOptimistic command.deviceId command.command
              command.value?).2.withOptimistic id flag)) →
        ((gateway.withOptimistic id flag).submit command).2 =
          (gateway.submit command).2.withOptimistic id flag) := by
  unfold submit
  rw [registry_find?_withOptimistic, frame_withOptimistic]
  cases hdevice : gateway.registry.find? command.deviceId with
  | none => exact ⟨rfl, rfl, fun _ => rfl⟩
  | some device =>
      have hsession := gateway.frame_snd command
      rw [framed_of_find? hdevice, Option.map_some]
      dsimp only
      generalize gateway.frame command = result at hsession ⊢
      obtain ⟨frame, after⟩ := result
      dsimp only at hsession ⊢
      have hbroken : (after.withOptimistic id flag).broken = after.broken := rfl
      rw [hbroken]
      cases hafter : after.broken with
      | true => exact ⟨rfl, rfl, fun _ => rfl⟩
      | false =>
          cases frame with
          | error reason => exact ⟨rfl, rfl, fun _ => rfl⟩
          | ok frame =>
              rw [if_neg Bool.false_ne_true, if_neg Bool.false_ne_true, hsession]
              dsimp only
              rw [applyOptimistic_eq, applyOptimistic_eq]
              refine ⟨rfl, rfl, fun hsame => ?_⟩
              unfold implied withOptimistic
              dsimp only
              rw [hsame rfl]
              rfl

/-! ## Twins -/

/-- Two gateways that are the same but for the flag of one device. -/
structure Twins (id : String) (plain eager : Gateway) : Prop where
  lacks : plain.withOptimistic id false = plain
  same : eager = plain.withOptimistic id true
  distinct : plain.registry.Distinct

/-- A change of the device is published before the command for it that implies the change. -/
def Deed.Anticipates (deed : Deed) (id : String) : Prop :=
  ∃ command change, deed.command? = some command ∧ command.deviceId = id ∧
    .stateChanged change ∈ deed.events

/-- What does not read the flag keeps twins alike. -/
theorem Twins.step {α : Type} {f : Gateway → α × Gateway} (h : Twins id plain eager)
    (hf : ∀ flag, f (plain.withOptimistic id flag) =
      ((f plain).1, (f plain).2.withOptimistic id flag))
    (hdistinct : (f plain).2.registry.Distinct) :
    (f eager).1 = (f plain).1 ∧ Twins id (f plain).2 (f eager).2 := by
  have hlacks := hf false
  rw [h.lacks] at hlacks
  rw [h.same, hf true]
  exact ⟨rfl, (congrArg Prod.snd hlacks).symm, rfl, hdistinct⟩

theorem Twins.aside {f : Gateway → Gateway} (h : Twins id plain eager)
    (hf : ∀ flag, f (plain.withOptimistic id flag) = (f plain).withOptimistic id flag)
    (hregistry : (f plain).registry = plain.registry) : Twins id (f plain) (f eager) := by
  have hstep := h.step (f := fun gateway => ((), f gateway)) (fun flag => by rw [hf flag])
  exact (hstep (hregistry ▸ h.distinct)).2

theorem Twins.dispatch (h : Twins id plain eager) (frame : Bytes) :
    (eager.dispatch frame).1 = (plain.dispatch frame).1 ∧
      Twins id (plain.dispatch frame).2 (eager.dispatch frame).2 := by
  have hdistinct : (plain.dispatch frame).2.registry.Distinct := by
    unfold Registry.Distinct
    rw [(plain.dispatch_spec frame).1.ids_eq]
    exact h.distinct
  exact h.step (f := fun gateway => gateway.dispatch frame)
    (fun _ => dispatch_withOptimistic plain frame) hdistinct

theorem framed_withOptimistic (gateway : Gateway) (command : DeviceCommand) :
    (gateway.withOptimistic id flag).framed command = gateway.framed command := by
  unfold framed
  rw [registry_find?_withOptimistic, frame_withOptimistic, Option.isSome_map]
  rfl

theorem implied_of_quiet {gateway : Gateway} {command : DeviceCommand}
    (hframed : gateway.framed command = true)
    (hquiet : ¬(gateway.commandDeed command).Anticipates command.deviceId) :
    (gateway.registry.applyOptimistic command.deviceId command.command command.value?).1 =
      none := by
  obtain ⟨_, _, _, _, hannounced, _⟩ := (gateway.submission command).of_framed hframed
  have hnothing : gateway.implied command = [] := by
    refine (implied_eq_nil_iff gateway command).2 ?_
    intro change hchange
    rw [← hannounced] at hchange
    exact hquiet ⟨command, change, rfl, rfl, hchange⟩
  unfold implied at hnothing
  rw [List.map_eq_nil_iff] at hnothing
  exact Option.toList_eq_nil_iff.1 hnothing

theorem Twins.submit (h : Twins id plain eager) {command : DeviceCommand}
    (hquiet : ¬(eager.commandDeed command).Anticipates id) :
    (eager.submit command).1 = (plain.submit command).1 ∧
      Twins id (plain.submit command).2 (eager.submit command).2 := by
  have hlacks : plain.registry.withOptimistic id false = plain.registry :=
    congrArg Gateway.registry h.lacks
  have hdistinct : (plain.submit command).2.registry.Distinct := by
    unfold Registry.Distinct
    rw [((plain.submission command).spec h.distinct).1.ids_eq]
    exact h.distinct
  refine h.step (f := fun gateway => gateway.submit command) (fun flag => ?_) hdistinct
  refine Prod.ext (plain.submit_withOptimistic command).1
    ((plain.submit_withOptimistic command).2.2 fun hframed => ?_)
  cases flag with
  | false => rw [Registry.lacks_applyOptimistic hlacks, hlacks]
  | true =>
      refine Registry.applyOptimistic_of_quiet hlacks h.distinct ?_
      rintro rfl
      have heager : eager.framed command = true := by
        rw [h.same, framed_withOptimistic, hframed]
      have hnone := implied_of_quiet heager hquiet
      rw [h.same] at hnone
      exact hnone

theorem Twins.dispatchAll (h : Twins id plain eager) (frames : List Bytes) :
    (eager.dispatchAll frames).1 = (plain.dispatchAll frames).1 ∧
      Twins id (plain.dispatchAll frames).2 (eager.dispatchAll frames).2 := by
  induction frames generalizing plain eager with
  | nil => exact ⟨rfl, h⟩
  | cons frame rest ih =>
      obtain ⟨hchanges, hnext⟩ := h.dispatch frame
      obtain ⟨hmore, hafter⟩ := ih hnext
      rw [dispatchAll_cons, dispatchAll_cons, hchanges, hmore]
      exact ⟨rfl, hafter⟩

theorem Twins.takeIssued (h : Twins id plain eager) :
    eager.takeIssued.1 = plain.takeIssued.1 ∧ Twins id plain.takeIssued.2 eager.takeIssued.2 :=
  h.step (f := Gateway.takeIssued) (fun _ => rfl) h.distinct

theorem Twins.runIssued (h : Twins id plain eager) (n : Nat) (issued : List DeviceCommand)
    (hquiet : ∀ deed ∈ issuedDeeds n issued eager, ¬deed.Anticipates id) :
    Twins id (runIssued n issued plain) (runIssued n issued eager) := by
  induction n generalizing issued plain eager with
  | zero => exact h
  | succ n ih =>
      cases issued with
      | nil => exact h
      | cons command rest =>
          rw [issuedDeeds_cons, List.forall_mem_cons] at hquiet
          obtain ⟨hfirst, hlater⟩ := hquiet
          obtain ⟨_, hnext⟩ := h.submit hfirst
          obtain ⟨hissued, htaken⟩ := hnext.takeIssued
          rw [hissued] at hlater
          rw [runIssued_cons, runIssued_cons, hissued]
          exact ih htaken _ hlater

theorem Twins.finishIssued (h : Twins id plain eager)
    (hquiet : ∀ deed ∈ eager.finishDeeds, ¬deed.Anticipates id) :
    Twins id plain.finishIssued eager.finishIssued := by
  obtain ⟨hissued, htaken⟩ := h.takeIssued
  have hrun := htaken.runIssued maxIssued eager.takeIssued.1 hquiet
  have hplain : plain.finishIssued = Gateway.runIssued maxIssued eager.takeIssued.1
      plain.takeIssued.2 := by
    rw [hissued]
    rfl
  rw [hplain]
  exact hrun

theorem Twins.perform (h : Twins id plain eager) (act : Act)
    (hquiet : ∀ deed ∈ eager.deeds act, ¬deed.Anticipates id) :
    Twins id (plain.perform act) (eager.perform act) := by
  cases act with
  | push chunk =>
      have hgiven := h.aside
        (f := fun gateway =>
          { gateway with assembler := (gateway.assembler.push chunk gateway.now).2 })
        (fun _ => rfl) rfl
      have hframes : (eager.assembler.push chunk eager.now).1 =
          (plain.assembler.push chunk plain.now).1 := by
        rw [h.same]
        rfl
      have hafter := (hgiven.dispatchAll (plain.assembler.push chunk plain.now).1).2
      have hfinish := hafter.finishIssued fun deed hdeed =>
        hquiet deed (List.mem_append_right _ (hframes ▸ hdeed))
      change Twins id _
        (Gateway.dispatchAll _ (eager.assembler.push chunk eager.now).1).2.finishIssued
      rw [hframes]
      exact hfinish
  | command command =>
      obtain ⟨hfirst, hlater⟩ := List.forall_mem_cons.1 hquiet
      exact (h.submit hfirst).2.finishIssued hlater
  | shutdown => exact h.aside (f := Gateway.shutdown) (fun _ => rfl) rfl
  | turn =>
      exact h.aside (f := fun gateway =>
        { gateway with queue := (gateway.queue.turn gateway.bus).endTurn }) (fun _ => rfl) rfl
  | settle => exact h.aside (f := Gateway.settle) (fun _ => rfl) rfl
  | advance ms => exact h.aside (f := fun gateway => gateway.advance ms) (fun _ => rfl) rfl

theorem Twins.performAll (h : Twins id plain eager) (acts : List Act)
    (hquiet : ∀ deed ∈ eager.deedsAll acts, ¬deed.Anticipates id) :
    Twins id (plain.performAll acts) (eager.performAll acts) := by
  induction acts generalizing plain eager with
  | nil => exact h
  | cons act rest ih =>
      have hnow := h.perform act fun deed hdeed => hquiet deed (List.mem_append_left _ hdeed)
      exact ih hnow fun deed hdeed => hquiet deed (List.mem_append_right _ hdeed)

theorem ofConfig_withOptimistic {config : GatewayConfig} {budget : Expr.Budget} {gateway : Gateway}
    (h : ofConfig config budget = .ok gateway) :
    ofConfig (config.withOptimistic id flag) budget = .ok (gateway.withOptimistic id flag) := by
  obtain ⟨line, registry, session, hline, hregistry, rfl⟩ := exists_of_ofConfig h
  unfold Registry.ofEntities at hregistry
  have hflagged : (Registry.registerAll
      { env := { base := line.rx.header.length, hosts := [(commandHostName, commandHost)] } }
      (config.withOptimistic id flag).entities).run { engine := { budget } } =
        (.ok (registry.withOptimistic id flag), session) := by
    refine (Registry.registerAll_withOptimistic
      { env := { base := line.rx.header.length, hosts := [(commandHostName, commandHost)] } }
      config.entities _).trans ?_
    rw [hregistry]
    rfl
  have hsettings : Line.ofSettings (config.withOptimistic id flag).settings = .ok line := hline
  unfold ofConfig Registry.ofEntities
  rw [hsettings]
  dsimp only [Except.mapError, bind, Except.bind]
  rw [hflagged]
  rfl

theorem twins_ofConfig {config : GatewayConfig} {budget : Expr.Budget}
    (hplain : ofConfig (config.withOptimistic id false) budget = .ok plain)
    (heager : ofConfig (config.withOptimistic id true) budget = .ok eager) :
    Twins id plain eager := by
  have hflagged : ∀ flag, ofConfig ((config.withOptimistic id false).withOptimistic id flag)
      budget = .ok (plain.withOptimistic id flag) := fun _ => ofConfig_withOptimistic hplain
  simp only [GatewayConfig.withOptimistic_withOptimistic] at hflagged
  have hfalse := hflagged false
  have htrue := hflagged true
  rw [hplain] at hfalse
  rw [heager] at htrue
  exact ⟨(Except.ok.inj hfalse).symm, Except.ok.inj htrue,
    (mirrors_ofConfig hplain).tells.distinct⟩

end Gateway

end PanelBus
