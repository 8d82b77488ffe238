import Mathlib
import PanelBus.Proofs.Event.Bus
import PanelBus.Proofs.Event.Replay
import PanelBus.Proofs.Gateway.Submission
/-!
# What a gateway has published

Main statement: `replay_of_run`.  States change when a frame is given to the devices and when a
command is put in, from outside or by an expression.  Both are deeds of the gateway, and the events
of all deeds together tell the states of all devices.
-/

namespace PanelBus.Gateway

/-- What is done with a gateway. -/
inductive Act where
  | push (chunk : Bytes)
  | command (command : DeviceCommand)
  | shutdown
  /-- The queue takes one turn. -/
  | turn
  | settle
  | advance (ms : Nat)

def perform (gateway : Gateway) : Act → Gateway
  | .push chunk => (gateway.push chunk).2
  | .command command => (gateway.command command).2
  | .shutdown => gateway.shutdown
  | .turn => { gateway with queue := (gateway.queue.turn gateway.bus).endTurn }
  | .settle => gateway.settle
  | .advance ms => gateway.advance ms

def performAll (gateway : Gateway) (acts : List Act) : Gateway := acts.foldl perform gateway

/-- A frame that is given to the devices, or a command that is put in. -/
structure Deed where
  /-- The command, if it is one. -/
  command? : Option DeviceCommand
  /-- What is published. -/
  events : List Event
  /-- The gateway right afterwards. -/
  after : Gateway

def frameDeed (gateway : Gateway) (frame : Bytes) : Deed :=
  let (changes, after) := gateway.dispatch frame
  { command? := none, events := changes.map .stateChanged, after }

def commandDeed (gateway : Gateway) (command : DeviceCommand) : Deed :=
  { command? := some command
    events := gateway.announced command
    after := (gateway.submit command).2 }

def frameDeeds (gateway : Gateway) : List Bytes → List Deed
  | [] => []
  | frame :: rest =>
    let deed := gateway.frameDeed frame
    deed :: deed.after.frameDeeds rest

def issuedDeeds : Nat → List DeviceCommand → Gateway → List Deed
  | 0, _, _ => []
  | _, [], _ => []
  | n + 1, command :: rest, gateway =>
    let deed := gateway.commandDeed command
    let (more, gateway) := deed.after.takeIssued
    deed :: issuedDeeds n (rest ++ more) gateway

/-- The deeds of commands that expressions have issued. -/
def finishDeeds (gateway : Gateway) : List Deed :=
  let (issued, gateway) := gateway.takeIssued
  issuedDeeds maxIssued issued gateway

def deeds (gateway : Gateway) : Act → List Deed
  | .push chunk =>
    let (frames, assembler) := gateway.assembler.push chunk gateway.now
    let given : Gateway := { gateway with assembler }
    given.frameDeeds frames ++ (given.dispatchAll frames).2.finishDeeds
  | .command command =>
    let deed := gateway.commandDeed command
    deed :: deed.after.finishDeeds
  | _ => []

def deedsAll (gateway : Gateway) : List Act → List Deed
  | [] => []
  | act :: rest => gateway.deeds act ++ (gateway.perform act).deedsAll rest

theorem dispatchAll_cons (gateway : Gateway) (frame : Bytes) (rest : List Bytes) :
    gateway.dispatchAll (frame :: rest) =
      ((gateway.dispatch frame).1 ++ ((gateway.dispatch frame).2.dispatchAll rest).1,
        ((gateway.dispatch frame).2.dispatchAll rest).2) := rfl

theorem runIssued_cons (n : Nat) (command : DeviceCommand) (rest : List DeviceCommand)
    (gateway : Gateway) :
    runIssued (n + 1) (command :: rest) gateway =
      runIssued n (rest ++ (gateway.submit command).2.takeIssued.1)
        (gateway.submit command).2.takeIssued.2 := rfl

theorem issuedDeeds_cons (n : Nat) (command : DeviceCommand) (rest : List DeviceCommand)
    (gateway : Gateway) :
    issuedDeeds (n + 1) (command :: rest) gateway =
      gateway.commandDeed command :: issuedDeeds n
        (rest ++ (gateway.submit command).2.takeIssued.1)
        (gateway.submit command).2.takeIssued.2 := rfl

theorem performAll_append (gateway : Gateway) (acts more : List Act) :
    gateway.performAll (acts ++ more) = (gateway.performAll acts).performAll more :=
  List.foldl_append

theorem deedsAll_append (gateway : Gateway) (acts more : List Act) :
    gateway.deedsAll (acts ++ more) =
      gateway.deedsAll acts ++ (gateway.performAll acts).deedsAll more := by
  induction acts generalizing gateway with
  | nil => rfl
  | cons act rest ih =>
      have hrest := congrArg (gateway.deeds act ++ ·) (ih (gateway.perform act))
      exact hrest.trans (List.append_assoc ..).symm

/-! ## From deed to deed -/

/-- The deeds lead from one gateway to the other. -/
inductive Through : Gateway → List Deed → Gateway → Prop where
  | quiet {gateway next : Gateway} (hbus : next.bus = gateway.bus)
      (hregistry : next.registry = gateway.registry) : Through gateway [] next
  | frame (gateway : Gateway) (frame : Bytes) :
      Through gateway [gateway.frameDeed frame] (gateway.dispatch frame).2
  | command (gateway : Gateway) (command : DeviceCommand) :
      Through gateway [gateway.commandDeed command] (gateway.submit command).2
  | trans {gateway middle next : Gateway} {deeds more : List Deed}
      (h : Through gateway deeds middle) (hnext : Through middle more next) :
      Through gateway (deeds ++ more) next

theorem through_dispatchAll (gateway : Gateway) (frames : List Bytes) :
    Through gateway (gateway.frameDeeds frames) (gateway.dispatchAll frames).2 := by
  induction frames generalizing gateway with
  | nil => exact .quiet rfl rfl
  | cons frame rest ih => exact (Through.frame gateway frame).trans (ih _)

theorem through_runIssued (n : Nat) (issued : List DeviceCommand) (gateway : Gateway) :
    Through gateway (issuedDeeds n issued gateway) (runIssued n issued gateway) := by
  induction n generalizing issued gateway with
  | zero => exact .quiet rfl rfl
  | succ n ih =>
      cases issued with
      | nil => exact .quiet rfl rfl
      | cons command rest =>
          have htaken : Through (gateway.submit command).2 []
              (gateway.submit command).2.takeIssued.2 := .quiet rfl rfl
          exact (Through.command gateway command).trans (htaken.trans (ih _ _))

theorem through_finishIssued (gateway : Gateway) :
    Through gateway gateway.finishDeeds gateway.finishIssued := by
  have htaken : Through gateway [] gateway.takeIssued.2 := .quiet rfl rfl
  exact htaken.trans (through_runIssued maxIssued gateway.takeIssued.1 gateway.takeIssued.2)

theorem through_perform (gateway : Gateway) (act : Act) :
    Through gateway (gateway.deeds act) (gateway.perform act) := by
  cases act with
  | push chunk =>
      have hgiven : Through gateway []
          { gateway with assembler := (gateway.assembler.push chunk gateway.now).2 } :=
        .quiet rfl rfl
      exact hgiven.trans ((through_dispatchAll _ _).trans (through_finishIssued _))
  | command command => exact (Through.command gateway command).trans (through_finishIssued _)
  | shutdown => exact .quiet rfl rfl
  | turn => exact .quiet rfl rfl
  | settle => exact .quiet rfl rfl
  | advance ms => exact .quiet rfl rfl

theorem through_performAll (gateway : Gateway) (acts : List Act) :
    Through gateway (gateway.deedsAll acts) (gateway.performAll acts) := by
  induction acts generalizing gateway with
  | nil => exact .quiet rfl rfl
  | cons act rest ih => exact (through_perform gateway act).trans (ih _)

/-! ## What the events tell -/

/-- All that was published, and that it tells the states of the devices. -/
structure Mirrors (gateway : Gateway) (events : List Event) : Prop where
  bus : gateway.bus = EventBus.empty.publishAll events
  tells : Tells events gateway.registry.devices

theorem Mirrors.holds {gateway : Gateway} {events : List Event} (h : gateway.Mirrors events) :
    gateway.bus.Holds events := by
  have hempty := (EventBus.holds_ofCapacity EventBus.defaultCapacity).publishAll events
  rw [List.nil_append] at hempty
  rw [h.bus]
  exact hempty

/-- What a deed tells of a device is so right after it. -/
def Deed.Shows (deed : Deed) : Prop :=
  ∀ change, .stateChanged change ∈ deed.events →
    (change.deviceId, change.state) ∈ deed.after.states

variable {gateway next : Gateway} {events : List Event}

theorem publishAll_append (bus : EventBus) (events more : List Event) :
    bus.publishAll (events ++ more) = (bus.publishAll events).publishAll more :=
  List.foldl_append

theorem dispatch_spec (gateway : Gateway) (frame : Bytes) :
    Recounts gateway.registry.devices ((gateway.dispatch frame).1.map .stateChanged)
        (gateway.dispatch frame).2.registry.devices ∧
      (gateway.dispatch frame).2.bus =
        gateway.bus.publishAll ((gateway.dispatch frame).1.map .stateChanged) := by
  have hall := gateway.registry.takeAll_dispatch frame gateway.session
  unfold dispatch
  generalize (gateway.registry.dispatch frame).run gateway.session = dispatched at hall
  obtain ⟨⟨changes, registry⟩, session⟩ := dispatched
  dsimp only at hall ⊢
  split
  · exact ⟨recounts_keep _, rfl⟩
  · exact ⟨.changes hall, rfl⟩

theorem Submission.spec {command : DeviceCommand} {result : Except CommandError Nat}
    (h : gateway.Submission command result events next)
    (hdistinct : gateway.registry.Distinct) :
    Recounts gateway.registry.devices events next.registry.devices ∧
      next.bus = gateway.bus.publishAll events := by
  cases h with
  | unknown hnone => exact ⟨recounts_keep _, rfl⟩
  | broke session hunframed hbroken => exact ⟨recounts_keep _, rfl⟩
  | unbuilt session reason hunframed hwhole => exact ⟨.deviceError _ _ _, rfl⟩
  | made session request hdevice hwhole hframed hid hattached =>
      exact ⟨.changes (Registry.takeAll_applyOptimistic hdistinct _ _ _), rfl⟩

theorem Mirrors.deed (h : gateway.Mirrors events) (deed : Deed)
    (hrecounts : Recounts gateway.registry.devices deed.events deed.after.registry.devices)
    (hbus : deed.after.bus = gateway.bus.publishAll deed.events) :
    deed.after.Mirrors (events ++ deed.events) ∧ deed.Shows := by
  refine ⟨⟨?_, h.tells.recount hrecounts⟩, ?_⟩
  · rw [hbus, h.bus, publishAll_append]
  · intro change hchange
    obtain ⟨device, hdevice, hid, hstate⟩ := hrecounts.exists_of_mem hchange
    rw [← hid, ← hstate]
    exact List.mem_map_of_mem hdevice

theorem Through.mirrors {deeds : List Deed} (h : Through gateway deeds next)
    (hbefore : gateway.Mirrors events) :
    next.Mirrors (events ++ deeds.flatMap Deed.events) ∧ ∀ deed ∈ deeds, deed.Shows := by
  induction h generalizing events with
  | quiet hbus hregistry =>
      rw [List.flatMap_nil, List.append_nil]
      refine ⟨⟨?_, ?_⟩, fun _ hdeed => absurd hdeed List.not_mem_nil⟩
      · rw [hbus]
        exact hbefore.bus
      · rw [hregistry]
        exact hbefore.tells
  | frame gateway frame =>
      obtain ⟨hrecounts, hbus⟩ := gateway.dispatch_spec frame
      rw [List.flatMap_singleton, List.forall_mem_singleton]
      exact hbefore.deed (gateway.frameDeed frame) hrecounts hbus
  | command gateway command =>
      obtain ⟨hrecounts, hbus⟩ := (gateway.submission command).spec hbefore.tells.distinct
      rw [List.flatMap_singleton, List.forall_mem_singleton]
      exact hbefore.deed (gateway.commandDeed command) hrecounts hbus
  | trans h hnext ih ihnext =>
      obtain ⟨hmiddle, hshows⟩ := ih hbefore
      obtain ⟨hafter, hmore⟩ := ihnext hmiddle
      rw [List.flatMap_append, ← List.append_assoc]
      refine ⟨hafter, ?_⟩
      intro deed hdeed
      rcases List.mem_append.1 hdeed with hfirst | hlater
      · exact hshows deed hfirst
      · exact hmore deed hlater

/-! ## What a push gives back -/

theorem flatMap_frameDeeds (gateway : Gateway) (frames : List Bytes) :
    (gateway.frameDeeds frames).flatMap Deed.events =
      (gateway.dispatchAll frames).1.map .stateChanged := by
  induction frames generalizing gateway with
  | nil => rfl
  | cons frame rest ih =>
      unfold frameDeeds
      rw [List.flatMap_cons, ih]
      exact (List.map_append ..).symm

theorem command?_of_mem_frameDeeds (gateway : Gateway) (frames : List Bytes) :
    ∀ deed ∈ gateway.frameDeeds frames, deed.command? = none := by
  induction frames generalizing gateway with
  | nil => exact fun _ hdeed => absurd hdeed List.not_mem_nil
  | cons frame rest ih => exact List.forall_mem_cons.2 ⟨rfl, ih _⟩

theorem command?_of_mem_issuedDeeds (n : Nat) (issued : List DeviceCommand) (gateway : Gateway) :
    ∀ deed ∈ issuedDeeds n issued gateway, deed.command?.isSome = true := by
  induction n generalizing issued gateway with
  | zero => exact fun _ hdeed => absurd hdeed List.not_mem_nil
  | succ n ih =>
      cases issued with
      | nil => exact fun _ hdeed => absurd hdeed List.not_mem_nil
      | cons command rest => exact List.forall_mem_cons.2 ⟨rfl, ih _ _⟩

theorem mirrors_ofConfig {config : GatewayConfig} {budget : Expr.Budget}
    (h : ofConfig config budget = .ok gateway) : gateway.Mirrors [] := by
  obtain ⟨line, registry, session, _, hregistry, rfl⟩ := exists_of_ofConfig h
  have hfresh : registry.Fresh := Registry.fresh_ofEntities (congrArg Prod.fst hregistry)
  exact ⟨rfl, tells_of_fresh hfresh⟩

theorem exists_mirrors {config : GatewayConfig} {budget : Expr.Budget}
    (h : Life config budget gateway) : ∃ events, gateway.Mirrors events := by
  induction h with
  | opened h => exact ⟨[], mirrors_ofConfig h⟩
  | @dispatch gateway _ frame ih =>
      obtain ⟨events, hmirrors⟩ := ih
      exact ⟨_, ((Through.frame gateway frame).mirrors hmirrors).1⟩
  | @submit gateway _ command ih =>
      obtain ⟨events, hmirrors⟩ := ih
      exact ⟨_, ((Through.command gateway command).mirrors hmirrors).1⟩
  | assemble _ chunk ih => exact ih.imp fun _ h => ⟨h.bus, h.tells⟩
  | takeIssued _ ih => exact ih.imp fun _ h => ⟨h.bus, h.tells⟩
  | shutdown _ ih => exact ih.imp fun _ h => ⟨h.bus, h.tells⟩
  | turn _ ih => exact ih.imp fun _ h => ⟨h.bus, h.tells⟩
  | settle _ ih => exact ih.imp fun _ h => ⟨h.bus, h.tells⟩
  | advance _ ms ih => exact ih.imp fun _ h => ⟨h.bus, h.tells⟩

/-- Replaying the changes that all events tell of a device gives its state.  An event tells the
state that its device has right after it; it is never without a change, and everything in it is
news.  A push gives back the changes that it publishes before commands of expressions are carried
out. -/
theorem replay_of_run {config : GatewayConfig} {budget : Expr.Budget} {opened : Gateway}
    (h : ofConfig config budget = .ok opened) (acts : List Act) :
    let gateway := opened.performAll acts
    let deeds := opened.deedsAll acts
    let events := deeds.flatMap Deed.events
    gateway.bus = EventBus.empty.publishAll events ∧
    (gateway.states.map Prod.fst).Nodup ∧
    (∀ id state, (id, state) ∈ gateway.states → state = replay id events) ∧
    (∀ early change late, events = early ++ .stateChanged change :: late →
      change.state = replay change.deviceId (early ++ [.stateChanged change]) ∧
        change.Alters (replay change.deviceId early)) ∧
    (∀ deed ∈ deeds, ∀ change, .stateChanged change ∈ deed.events →
      (change.deviceId, change.state) ∈ deed.after.states) ∧
    ∀ chunk, ∃ framed issued, gateway.deeds (.push chunk) = framed ++ issued ∧
      (∀ deed ∈ framed, deed.command? = none) ∧ (∀ deed ∈ issued, deed.command?.isSome = true) ∧
        framed.flatMap Deed.events = (gateway.push chunk).1.map .stateChanged := by
  intro gateway deeds events
  obtain ⟨hmirrors, hshows⟩ := (through_performAll opened acts).mirrors (mirrors_ofConfig h)
  rw [List.nil_append] at hmirrors
  refine ⟨hmirrors.bus, ?_, ?_, ?_, hshows, ?_⟩
  · unfold states
    rw [List.map_map]
    exact hmirrors.tells.distinct
  · intro id state hmem
    obtain ⟨device, hdevice, hsame⟩ := List.mem_map.1 hmem
    obtain ⟨rfl, rfl⟩ := Prod.mk.inj hsame
    exact hmirrors.tells.state device hdevice
  · intro early change late hsplit
    have halters := hmirrors.tells.faithful early change late hsplit
    refine ⟨?_, halters⟩
    rw [replay_concat, Event.replay, if_pos rfl]
    exact halters.state
  · intro chunk
    let given : Gateway :=
      { gateway with assembler := (gateway.assembler.push chunk gateway.now).2 }
    let frames := (gateway.assembler.push chunk gateway.now).1
    exact ⟨given.frameDeeds frames, (given.dispatchAll frames).2.finishDeeds, rfl,
      command?_of_mem_frameDeeds _ _, command?_of_mem_issuedDeeds _ _ _, flatMap_frameDeeds _ _⟩

/-- A lamp that tells whether it is on and is sent each command once. -/
def hallConfig (optimistic : Bool) : GatewayConfig :=
  { settings := { rxHeader := [0xf7], rxLength? := some 4, txHeader := [0xf7] }
    entities := [{
      common :=
        { id := "hall"
          state? := some { data := [0x0e] }
          optimistic
          retryPolicy? := some { attempts := 0, timeout := 100 } }
      features := .light
        { on? := some { offset := 1, data := [0x01] }
          off? := some { offset := 1, data := [0x00] }
          turnOn? := some { data := [0x01] } } }] }

/-- The lamp counts as on as soon as it is told so, and then it says that it is off. -/
def hallActs : List Act := [.command ⟨"hall", "on", none⟩, .push [0xf7, 0x0e, 0x00, 0x00]]

theorem replay_of_run_hall :
    ∃ opened, ofConfig (hallConfig true) {} = .ok opened ∧
      (opened.performAll hallActs).states = [("hall", [("state", .str "OFF")])] ∧
        replay "hall" ((opened.deedsAll hallActs).flatMap Deed.events) =
          [("state", .str "OFF")] := by
  have hopened : (ofConfig (hallConfig true) {}).toOption.map (fun opened =>
      (opened.performAll hallActs).states) = some [("hall", [("state", .str "OFF")])] := by
    cbv
  obtain ⟨opened, hconfig, hstates⟩ := exists_of_toOption hopened
  obtain ⟨_, _, hreplay, _⟩ := replay_of_run hconfig hallActs
  refine ⟨opened, hconfig, hstates, (hreplay "hall" _ ?_).symm⟩
  rw [hstates]
  exact List.mem_cons_self

end PanelBus.Gateway
