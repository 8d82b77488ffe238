import PanelBus.Proofs.Gateway.History
/-!
# Commands that are refused

Main statement: `refused_unchanged_iff`.  A command that is turned away before it comes as far as
the queue leaves all states as they are.  The queue refuses a command after the change that it
implies was published.
-/

namespace PanelBus.Gateway

variable {config : GatewayConfig} {budget : Expr.Budget} {gateway next : Gateway}
  {command : DeviceCommand} {events : List Event}

theorem enqueue_error {queue : CommandQueue} {request : SendRequest} {error : CommandError}
    (h : (queue.enqueue request).1 = .error error) :
    queue.refusal? = some error ∧ (queue.enqueue request).2 = queue := by
  unfold CommandQueue.enqueue at h ⊢
  cases hrefusal : queue.refusal? with
  | none =>
      rw [hrefusal] at h
      cases h
  | some reason =>
      rw [hrefusal] at h
      exact ⟨congrArg some (Except.error.inj h), rfl⟩

theorem states_eq (h : next.registry.devices = gateway.registry.devices) :
    next.states = gateway.states := by
  unfold states
  rw [h]

/-- A command that is turned away before it comes as far as the queue leaves everything as it is but
for an error that it may publish. -/
theorem Submission.unframed {result : Except CommandError Nat}
    (h : gateway.Submission command result events next)
    (hunframed : gateway.framed command = false) :
    next.queue = gateway.queue ∧ next.states = gateway.states ∧
      ∀ change, .stateChanged change ∉ events := by
  cases h with
  | unknown hnone => exact ⟨rfl, rfl, fun _ => List.not_mem_nil⟩
  | broke session _ hbroken => exact ⟨rfl, rfl, fun _ => List.not_mem_nil⟩
  | unbuilt session reason _ hwhole =>
      refine ⟨rfl, rfl, ?_⟩
      intro change hchange
      cases List.mem_singleton.1 hchange
  | made session request hdevice hwhole hframed hid hattached =>
      rw [hunframed] at hframed
      cases hframed

/-- A command that the queue refuses was announced all the same. -/
theorem Submission.framed {result : Except CommandError Nat}
    (h : gateway.Submission command result events next) (hframed : gateway.framed command = true)
    {error : CommandError} (hrefused : result = .error error) :
    gateway.queue.refusal? = some error ∧ next.queue = gateway.queue ∧
      events = gateway.implied command := by
  obtain ⟨request, _, hresult, hqueue, hevents, _⟩ := h.of_framed hframed
  rw [hresult] at hrefused
  obtain ⟨hrefusal, hunchanged⟩ := enqueue_error hrefused
  exact ⟨hrefusal, hqueue.trans hunchanged, hevents⟩

/-- A refused command changes no state and publishes no change exactly when it did not come as far
as the queue, or implies no change of the state at hand. -/
theorem refused_unchanged_iff (h : Life config budget gateway) {error : CommandError}
    (hrefused : (gateway.submit command).1 = .error error) :
    (gateway.submit command).2.bus = gateway.bus.publishAll (gateway.announced command) ∧
    (gateway.submit command).2.queue = gateway.queue ∧
    (gateway.framed command = true → gateway.queue.refusal? = some error) ∧
    ((gateway.submit command).2.states = gateway.states ∧
        (∀ change, .stateChanged change ∉ gateway.announced command) ↔
      gateway.framed command = false ∨ gateway.implied command = []) := by
  obtain ⟨_, hmirrors⟩ := exists_mirrors h
  have hsubmission := gateway.submission command
  obtain ⟨hrecounts, hbus⟩ := hsubmission.spec hmirrors.tells.distinct
  cases hframed : gateway.framed command with
  | false =>
      obtain ⟨hqueue, hunchanged⟩ := hsubmission.unframed hframed
      refine ⟨hbus, hqueue, fun hsame => absurd hsame Bool.false_ne_true, ?_⟩
      exact iff_of_true hunchanged (.inl rfl)
  | true =>
      obtain ⟨hrefusal, hqueue, hannounced⟩ := hsubmission.framed hframed hrefused
      refine ⟨hbus, hqueue, fun _ => hrefusal, ?_⟩
      rw [hannounced] at hrecounts ⊢
      constructor
      · intro hunchanged
        exact .inr ((implied_eq_nil_iff gateway command).2 hunchanged.2)
      · intro hnothing
        have hnone := hnothing.resolve_left fun hsame => Bool.false_ne_true hsame.symm
        refine ⟨states_eq ?_, (implied_eq_nil_iff gateway command).1 hnone⟩
        rw [hnone] at hrecounts
        exact hrecounts.eq_of_nil

/-- The lamp is on already when the refused command comes. -/
theorem refused_unchanged_hall :
    ∃ gateway, Life (hallConfig true) {} gateway ∧
      (gateway.submit ⟨"hall", "on", none⟩).1 = .error .stopped ∧
        gateway.framed ⟨"hall", "on", none⟩ = true ∧
          (gateway.submit ⟨"hall", "on", none⟩).2.states = gateway.states := by
  have hopened : (ofConfig (hallConfig true) {}).toOption.map (fun opened =>
      let gateway := (opened.push [0xf7, 0x0e, 0x01, 0x00]).2.shutdown
      ((gateway.submit ⟨"hall", "on", none⟩).1, gateway.framed ⟨"hall", "on", none⟩,
        (gateway.implied ⟨"hall", "on", none⟩).isEmpty)) =
      some (.error .stopped, true, true) := by
    cbv
  obtain ⟨opened, hconfig, hfacts⟩ := exists_of_toOption hopened
  obtain ⟨hrefused, hframed, hempty⟩ := by simpa only [Prod.mk.injEq] using hfacts
  have hlife : Life (hallConfig true) {} (opened.push [0xf7, 0x0e, 0x01, 0x00]).2.shutdown :=
    ((Life.opened hconfig).push _).shutdown
  refine ⟨_, hlife, hrefused, hframed, ?_⟩
  obtain ⟨_, _, _, hunchanged⟩ := refused_unchanged_iff hlife hrefused
  exact (hunchanged.2 (.inr (List.isEmpty_iff.1 hempty))).1

/-- The gateway is shut down, the lamp is told to go on, and the command is refused.  The lamp
counts as on afterwards, and that was published. -/
theorem refused_changed : ∃ opened, ofConfig (hallConfig true) {} = .ok opened ∧
    (opened.shutdown.submit ⟨"hall", "on", none⟩).1 = .error .stopped ∧
      opened.shutdown.states = [("hall", [])] ∧
      (opened.shutdown.submit ⟨"hall", "on", none⟩).2.states =
        [("hall", [("state", .str "ON")])] ∧
      (opened.shutdown.submit ⟨"hall", "on", none⟩).2.bus.kept.map (Event.confirms "hall") =
        [true] := by
  have hopened : (ofConfig (hallConfig true) {}).toOption.map (fun opened =>
      let submitted := opened.shutdown.submit ⟨"hall", "on", none⟩
      (submitted.1, opened.shutdown.states, submitted.2.states,
        submitted.2.bus.kept.map (Event.confirms "hall"))) =
      some (.error .stopped, [("hall", [])], [("hall", [("state", .str "ON")])], [true]) := by
    cbv
  obtain ⟨opened, hconfig, hfacts⟩ := exists_of_toOption hopened
  simp only [Prod.mk.injEq] at hfacts
  exact ⟨opened, hconfig, hfacts⟩

end PanelBus.Gateway
