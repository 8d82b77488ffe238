import PanelBus.Gateway.Basic
import PanelBus.Proofs.Sending.Turns
/-!
# Gateways as exchanges

What a gateway does to its bus and its queue are acts of an exchange.  A command that it takes is
put into the queue after the change that it implies was published.
-/

namespace PanelBus

theorem exists_of_toOption {α ε β : Type} {opened : Except ε α} {f : α → β} {b : β}
    (h : opened.toOption.map f = some b) : ∃ a, opened = .ok a ∧ f a = b := by
  cases opened with
  | error error => cases h
  | ok a => exact ⟨a, rfl, Option.some.inj h⟩

namespace Gateway

/-- The change of state that a command implies, if there is one. -/
def implied (gateway : Gateway) (command : DeviceCommand) : List Event :=
  (gateway.registry.applyOptimistic command.deviceId command.command command.value?).1.toList.map
    .stateChanged

theorem frame_snd (gateway : Gateway) (command : DeviceCommand) :
    (gateway.frame command).2 =
      { gateway with session := (gateway.frame command).2.session } := rfl

theorem applyOptimistic_spec (gateway : Gateway) (command : DeviceCommand) :
    (gateway.applyOptimistic command).bus = gateway.bus.publishAll (gateway.implied command) ∧
      (gateway.applyOptimistic command).queue = gateway.queue := by
  unfold applyOptimistic implied
  generalize gateway.registry.applyOptimistic command.deviceId command.command command.value? =
    applied
  obtain ⟨change?, registry⟩ := applied
  cases change? with
  | none => exact ⟨rfl, rfl⟩
  | some change => exact ⟨rfl, rfl⟩

/-- A command is refused before it comes to the queue, or the change that it implies is published
and its frame is put in. -/
theorem submit_cases (gateway : Gateway) (command : DeviceCommand) :
    (∃ error events, (gateway.submit command).1 = .error error ∧
      (gateway.submit command).2.bus = gateway.bus.publishAll events ∧
        (gateway.submit command).2.queue = gateway.queue) ∨
    ∃ request : SendRequest, request.deviceId = command.deviceId ∧ request.attached = false ∧
      (gateway.submit command).2.bus = gateway.bus.publishAll (gateway.implied command) ∧
        gateway.queue.enqueue request =
          ((gateway.submit command).1, (gateway.submit command).2.queue) := by
  unfold submit
  cases hdevice : gateway.registry.find? command.deviceId with
  | none => exact .inl ⟨_, [], rfl, rfl, rfl⟩
  | some device =>
      have hsession := gateway.frame_snd command
      dsimp only
      generalize gateway.frame command = framed at hsession ⊢
      obtain ⟨frame, after⟩ := framed
      dsimp only at hsession ⊢
      by_cases hbroken : after.broken = true
      · rw [if_pos hbroken, hsession]
        exact .inl ⟨_, [], rfl, rfl, rfl⟩
      · rw [if_neg hbroken, hsession]
        cases frame with
        | error reason => exact .inl ⟨_, [_], rfl, rfl, rfl⟩
        | ok frame =>
            let given : Gateway := { gateway with session := after.session }
            let request : SendRequest :=
              { deviceId := command.deviceId
                frame := frame
                retry := device.entity.common.retryPolicy?.getD
                  (given.applyOptimistic command).line.retry
                priority := priority command.command }
            obtain ⟨hbus, hqueue⟩ := given.applyOptimistic_spec command
            exact .inr ⟨request, rfl, rfl, hbus,
              congrArg (fun queue => queue.enqueue request) hqueue.symm⟩

/-! ## Everything that a gateway does -/

/-- What is done to the bus and the queue from one to the other are acts of an exchange.  The
gateway goes on holding its queue, and no sender waits at it. -/
structure Follows (gateway next : Gateway) : Prop where
  held : gateway.queue.Held 1 → next.queue.Held 1
  leads : gateway.queue.Held 1 → ∀ ex : Exchange, ex.Carries gateway.bus gateway.queue [] →
    ex.Leads next.bus next.queue []

theorem Follows.of_eq {gateway next : Gateway} (hbus : next.bus = gateway.bus)
    (hqueue : next.queue = gateway.queue) : Follows gateway next where
  held := fun h => hqueue ▸ h
  leads := by
    intro _ ex hex
    rw [hbus, hqueue]
    exact hex.leads

theorem Follows.trans {gateway middle next : Gateway} (h : Follows gateway middle)
    (hnext : Follows middle next) : Follows gateway next where
  held := fun hheld => hnext.held (h.held hheld)
  leads := fun hheld ex hex =>
    (h.leads hheld ex hex).trans fun ex hex => hnext.leads (h.held hheld) ex hex

theorem Follows.publishAll {gateway next : Gateway} {events : List Event}
    (hbus : next.bus = gateway.bus.publishAll events) (hqueue : next.queue = gateway.queue) :
    Follows gateway next where
  held := fun h => hqueue ▸ h
  leads := by
    intro _ ex hex
    rw [hbus, hqueue]
    exact hex.publishAll events

theorem follows_dispatch (gateway : Gateway) (frame : Bytes) :
    Follows gateway (gateway.dispatch frame).2 := by
  unfold dispatch
  generalize (gateway.registry.dispatch frame).run gateway.session = dispatched
  obtain ⟨⟨changes, registry⟩, session⟩ := dispatched
  dsimp only
  split
  · exact .of_eq rfl rfl
  · exact .publishAll rfl rfl

theorem follows_submit (gateway : Gateway) (command : DeviceCommand) :
    Follows gateway (gateway.submit command).2 := by
  rcases gateway.submit_cases command with ⟨_, events, _, hbus, hqueue⟩ |
    ⟨request, _, hattached, hbus, henqueue⟩
  · exact .publishAll hbus hqueue
  · have hqueue : (gateway.submit command).2.queue = (gateway.queue.enqueue request).2 := by
      rw [henqueue]
    refine ⟨?_, ?_⟩
    · intro hheld
      rw [hqueue]
      exact hheld.enqueue hattached
    · intro hheld ex hex
      rw [hbus, hqueue]
      exact (hex.publishAll _).trans fun ex hex => hex.enqueue hheld.holders_ne_zero hattached

theorem follows_shutdown (gateway : Gateway) : Follows gateway gateway.shutdown where
  held := fun h => h
  leads := fun hheld _ hex => hex.shutdown hheld.holders_ne_zero

theorem follows_turn (gateway : Gateway) :
    Follows gateway { gateway with queue := (gateway.queue.turn gateway.bus).endTurn } where
  held := fun h => (h.turn gateway.bus).endTurn
  leads := fun _ _ hex => hex.turn.trans fun _ hex => hex.endTurn

theorem follows_settle (gateway : Gateway) : Follows gateway gateway.settle where
  held := fun h => h.settle
  leads := fun _ _ hex => hex.settle

theorem follows_advance (gateway : Gateway) (ms : Nat) : Follows gateway (gateway.advance ms) where
  held := fun h => h.advance ms
  leads := fun _ _ hex => hex.advance ms

/-- The gateways that come about from a configuration: octets are taken, frames given to the
devices, commands put in and turns of the queue taken in any order. -/
inductive Life (config : GatewayConfig) (budget : Expr.Budget) : Gateway → Prop where
  | opened {gateway : Gateway} (h : ofConfig config budget = .ok gateway) :
      Life config budget gateway
  | assemble {gateway : Gateway} (h : Life config budget gateway) (chunk : Bytes) :
      Life config budget
        { gateway with assembler := (gateway.assembler.push chunk gateway.now).2 }
  | dispatch {gateway : Gateway} (h : Life config budget gateway) (frame : Bytes) :
      Life config budget (gateway.dispatch frame).2
  | submit {gateway : Gateway} (h : Life config budget gateway) (command : DeviceCommand) :
      Life config budget (gateway.submit command).2
  | takeIssued {gateway : Gateway} (h : Life config budget gateway) :
      Life config budget gateway.takeIssued.2
  | shutdown {gateway : Gateway} (h : Life config budget gateway) :
      Life config budget gateway.shutdown
  | turn {gateway : Gateway} (h : Life config budget gateway) :
      Life config budget
        { gateway with queue := (gateway.queue.turn gateway.bus).endTurn }
  | settle {gateway : Gateway} (h : Life config budget gateway) : Life config budget gateway.settle
  | advance {gateway : Gateway} (h : Life config budget gateway) (ms : Nat) :
      Life config budget (gateway.advance ms)

section Life

variable {config : GatewayConfig} {budget : Expr.Budget} {gateway : Gateway}

theorem Life.dispatchAll (h : Life config budget gateway) (frames : List Bytes) :
    Life config budget (gateway.dispatchAll frames).2 := by
  induction frames generalizing gateway with
  | nil => exact h
  | cons frame rest ih => exact ih (h.dispatch frame)

theorem Life.runIssued (h : Life config budget gateway) (n : Nat) (issued : List DeviceCommand) :
    Life config budget (runIssued n issued gateway) := by
  induction n generalizing issued gateway with
  | zero => exact h
  | succ n ih =>
      cases issued with
      | nil => exact h
      | cons command rest => exact ih (h.submit command).takeIssued _

theorem Life.finishIssued (h : Life config budget gateway) :
    Life config budget gateway.finishIssued :=
  h.takeIssued.runIssued _ _

theorem Life.push (h : Life config budget gateway) (chunk : Bytes) :
    Life config budget (gateway.push chunk).2 :=
  ((h.assemble chunk).dispatchAll _).finishIssued

theorem Life.command (h : Life config budget gateway) (command : DeviceCommand) :
    Life config budget (gateway.command command).2 :=
  (h.submit command).finishIssued

end Life

/-- A configuration gives a gateway when its line is in order and its entities can be registered. -/
theorem exists_of_ofConfig {config : GatewayConfig} {budget : Expr.Budget} {gateway : Gateway}
    (h : ofConfig config budget = .ok gateway) :
    ∃ line registry session, Line.ofSettings config.settings = .ok line ∧
      (Registry.ofEntities
          { base := line.rx.header.length, hosts := [(commandHostName, commandHost)] }
          config.entities).run { engine := { budget } } = (.ok registry, session) ∧
      gateway =
        { id := config.id
          line, registry, session
          assembler := .ofFormat line.rx
          bus := .empty
          queue := .ofBus .empty line.txDelay } := by
  unfold ofConfig at h
  cases hline : Line.ofSettings config.settings with
  | error fault =>
      rw [hline] at h
      cases h
  | ok line =>
      rw [hline] at h
      dsimp only [Except.mapError, bind, Except.bind] at h
      generalize hopened : (Registry.ofEntities _ config.entities).run _ = opened at h
      obtain ⟨result, session⟩ := opened
      cases result with
      | error error => cases h
      | ok registry => exact ⟨line, registry, session, rfl, hopened, (Except.ok.inj h).symm⟩

theorem opened_spec {config : GatewayConfig} {budget : Expr.Budget} {gateway : Gateway}
    (h : ofConfig config budget = .ok gateway) :
    ∃ txDelay, gateway.bus = .empty ∧ gateway.queue = .ofBus .empty txDelay := by
  obtain ⟨line, registry, session, _, _, rfl⟩ := exists_of_ofConfig h
  exact ⟨line.txDelay, rfl, rfl⟩

/-- Whatever a gateway does is, on its bus and its queue, a run of an exchange. -/
theorem exists_run {config : GatewayConfig} {budget : Expr.Budget} {gateway : Gateway}
    (h : Life config budget gateway) :
    gateway.queue.Held 1 ∧ ∃ txDelay, ∀ outlet,
      (Exchange.start EventBus.defaultCapacity txDelay [] outlet).Leads gateway.bus gateway.queue
        [] := by
  have hstep : ∀ {gateway next : Gateway}, Follows gateway next →
      (gateway.queue.Held 1 ∧ ∃ txDelay, ∀ outlet,
        (Exchange.start EventBus.defaultCapacity txDelay [] outlet).Leads gateway.bus
          gateway.queue []) →
      next.queue.Held 1 ∧ ∃ txDelay, ∀ outlet,
        (Exchange.start EventBus.defaultCapacity txDelay [] outlet).Leads next.bus next.queue
          [] := by
    rintro gateway next hfollows ⟨hheld, txDelay, hleads⟩
    refine ⟨hfollows.held hheld, txDelay, fun outlet => ?_⟩
    exact (hleads outlet).trans fun ex hex => hfollows.leads hheld ex hex
  induction h with
  | opened h =>
      obtain ⟨txDelay, hbus, hqueue⟩ := opened_spec h
      rw [hbus, hqueue]
      exact ⟨rfl, txDelay, fun _ => Exchange.Carries.leads ⟨rfl, rfl, rfl⟩⟩
  | assemble _ chunk ih => exact hstep (.of_eq rfl rfl) ih
  | dispatch _ frame ih => exact hstep (follows_dispatch _ frame) ih
  | submit _ command ih => exact hstep (follows_submit _ command) ih
  | takeIssued _ ih => exact hstep (.of_eq rfl rfl) ih
  | shutdown _ ih => exact hstep (follows_shutdown _) ih
  | turn _ ih => exact hstep (follows_turn _) ih
  | settle _ ih => exact hstep (follows_settle _) ih
  | advance _ ms ih => exact hstep (follows_advance _ ms) ih

end Gateway

end PanelBus
