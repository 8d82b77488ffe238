import PanelBus.Proofs.Gateway.Life
/-!
# How far a command comes

A command for a device that does not exist, or over which the gateway breaks down, is turned away
in silence.  A command without a frame is turned away with an error on the bus.  The change that
any other command implies is published, and then the queue takes the command or refuses it.
-/

namespace PanelBus.Gateway

/-- The error that a command without a frame leaves on the bus. -/
def unbuilt (command : DeviceCommand) (reason : String) : Event :=
  .deviceError (some command.deviceId) .command
    ("failed to build command '" ++ command.command ++ "': " ++ reason)

/-- What is published when a command is put in. -/
def announced (gateway : Gateway) (command : DeviceCommand) : List Event :=
  match gateway.registry.find? command.deviceId with
  | none => []
  | some _ =>
    let (frame, after) := gateway.frame command
    if after.broken then []
    else
      match frame with
      | .error reason => [unbuilt command reason]
      | .ok _ => gateway.implied command

/-- Whether a frame was made of the command, so that it came as far as the queue. -/
def framed (gateway : Gateway) (command : DeviceCommand) : Bool :=
  (gateway.registry.find? command.deviceId).isSome && !(gateway.frame command).2.broken &&
    (gateway.frame command).1.toBool

/-- What comes of a command that is put in: the result, what is published, and the gateway
afterwards. -/
inductive Submission (gateway : Gateway) (command : DeviceCommand) :
    Except CommandError Nat → List Event → Gateway → Prop where
  | unknown (hnone : gateway.registry.find? command.deviceId = none) :
      Submission gateway command (.error (.unknownDevice command.deviceId)) [] gateway
  | broke (session : Expr.Session) (hunframed : gateway.framed command = false)
      (hbroken : session.broken = true) :
      Submission gateway command (.error .closed) [] { gateway with session }
  | unbuilt (session : Expr.Session) (reason : String) (hunframed : gateway.framed command = false)
      (hwhole : session.broken = false) :
      Submission gateway command (.error (.notBuilt command.deviceId command.command))
        [unbuilt command reason]
        { gateway with session, bus := gateway.bus.publish (unbuilt command reason) }
  | made {device : Device} (session : Expr.Session) (request : SendRequest)
      (hdevice : gateway.registry.find? command.deviceId = some device)
      (hwhole : session.broken = false) (hframed : gateway.framed command = true)
      (hid : request.deviceId = command.deviceId) (hattached : request.attached = false) :
      Submission gateway command (gateway.queue.enqueue request).1 (gateway.implied command)
        { gateway with
          session
          registry := (gateway.registry.applyOptimistic command.deviceId command.command
            command.value?).2
          bus := gateway.bus.publishAll (gateway.implied command)
          queue := (gateway.queue.enqueue request).2 }

theorem applyOptimistic_eq (gateway : Gateway) (command : DeviceCommand) :
    gateway.applyOptimistic command =
      { gateway with
        registry := (gateway.registry.applyOptimistic command.deviceId command.command
          command.value?).2
        bus := gateway.bus.publishAll (gateway.implied command) } := by
  unfold applyOptimistic implied
  generalize gateway.registry.applyOptimistic command.deviceId command.command command.value? =
    applied
  obtain ⟨change?, registry⟩ := applied
  cases change? with
  | none => rfl
  | some change => rfl

theorem framed_of_find? {gateway : Gateway} {command : DeviceCommand} {device : Device}
    (hdevice : gateway.registry.find? command.deviceId = some device) :
    gateway.framed command =
      (!(gateway.frame command).2.broken && (gateway.frame command).1.toBool) := by
  unfold framed
  rw [hdevice]
  rfl

theorem submission (gateway : Gateway) (command : DeviceCommand) :
    gateway.Submission command (gateway.submit command).1 (gateway.announced command)
      (gateway.submit command).2 := by
  cases hdevice : gateway.registry.find? command.deviceId with
  | none =>
      simp only [submit, announced, hdevice]
      exact .unknown hdevice
  | some device =>
      have hframed := framed_of_find? hdevice
      have hsession := gateway.frame_snd command
      unfold submit announced
      rw [hdevice]
      dsimp only
      generalize gateway.frame command = result at hframed hsession ⊢
      obtain ⟨frame, after⟩ := result
      dsimp only at hframed hsession ⊢
      by_cases hbroken : after.broken = true
      · rw [if_pos hbroken, if_pos hbroken, hsession]
        rw [hbroken] at hframed
        exact .broke after.session hframed hbroken
      · have hwhole : after.session.broken = false := eq_false_of_ne_true hbroken
        rw [if_neg hbroken, if_neg hbroken, hsession]
        have hunbroken : after.broken = false := hwhole
        rw [hunbroken] at hframed
        cases frame with
        | error reason => exact .unbuilt after.session reason hframed hwhole
        | ok frame =>
            dsimp only
            rw [applyOptimistic_eq]
            exact .made after.session _ hdevice hwhole hframed rfl rfl

theorem framed_of_unknown {gateway : Gateway} {command : DeviceCommand}
    (hnone : gateway.registry.find? command.deviceId = none) :
    gateway.framed command = false := by
  unfold framed
  rw [hnone]
  rfl

/-- A command of which a frame was made is announced, and comes to the queue. -/
theorem Submission.of_framed {gateway next : Gateway} {command : DeviceCommand}
    {result : Except CommandError Nat} {events : List Event}
    (h : gateway.Submission command result events next) (hframed : gateway.framed command = true) :
    ∃ request : SendRequest, request.deviceId = command.deviceId ∧
      result = (gateway.queue.enqueue request).1 ∧
      next.queue = (gateway.queue.enqueue request).2 ∧
      events = gateway.implied command ∧
      next.registry = (gateway.registry.applyOptimistic command.deviceId command.command
        command.value?).2 := by
  cases h with
  | unknown hnone =>
      rw [framed_of_unknown hnone] at hframed
      cases hframed
  | broke session hunframed hbroken =>
      rw [hunframed] at hframed
      cases hframed
  | unbuilt session reason hunframed hwhole =>
      rw [hunframed] at hframed
      cases hframed
  | made session request hdevice hwhole _ hid hattached =>
      exact ⟨request, hid, rfl, rfl, rfl, rfl⟩

/-- Changes are implied as they are published. -/
theorem implied_eq_nil_iff (gateway : Gateway) (command : DeviceCommand) :
    gateway.implied command = [] ↔ ∀ change, .stateChanged change ∉ gateway.implied command := by
  constructor
  · intro hnone change hchange
    rw [hnone] at hchange
    cases hchange
  · intro hnone
    unfold implied at hnone ⊢
    rw [List.map_eq_nil_iff]
    refine List.eq_nil_iff_forall_not_mem.2 ?_
    intro change hchange
    exact hnone change (List.mem_map_of_mem hchange)

end PanelBus.Gateway
