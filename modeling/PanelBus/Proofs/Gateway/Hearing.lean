import PanelBus.Proofs.Gateway.History
import PanelBus.Proofs.Sending.Confirmation
/-!
# What a waiting command hears

Main statement: `done_of_hears`.  Octets from which a change of its device comes while a command
waits confirm the command, if only the gateway is not shut down.  What expressions do on the way
leaves the waiting queue alone.
-/

namespace PanelBus.Gateway

open CommandQueue (Owes)

variable {config : GatewayConfig} {budget : Expr.Budget} {gateway middle next : Gateway}
  {events more : List Event} {id : String}

/-! ## Gateways that go on -/

theorem Life.perform (h : Life config budget gateway) (act : Act) :
    Life config budget (gateway.perform act) := by
  cases act with
  | push chunk => exact h.push chunk
  | command command => exact h.command command
  | shutdown => exact h.shutdown
  | turn => exact h.turn
  | settle => exact h.settle
  | advance ms => exact h.advance ms

theorem Life.performAll (h : Life config budget gateway) (acts : List Act) :
    Life config budget (gateway.performAll acts) := by
  induction acts generalizing gateway with
  | nil => exact h
  | cons act rest ih => exact ih (h.perform act)

theorem finishIssued_of {P : Gateway → Prop}
    (htaken : ∀ gateway, P gateway → P gateway.takeIssued.2)
    (hsubmit : ∀ gateway command, P gateway → P (gateway.submit command).2) (h : P gateway) :
    P gateway.finishIssued := by
  have hrun : ∀ n issued gateway, P gateway → P (runIssued n issued gateway) := by
    intro n
    induction n with
    | zero => exact fun _ _ h => h
    | succ n ih =>
        intro issued gateway h
        cases issued with
        | nil => exact h
        | cons command rest => exact ih _ _ (htaken _ (hsubmit gateway command h))
  exact hrun maxIssued gateway.takeIssued.1 gateway.takeIssued.2 (htaken gateway h)

theorem follows_finishIssued (gateway : Gateway) : Follows gateway gateway.finishIssued :=
  finishIssued_of (P := Follows gateway) (fun _ h => h.trans (.of_eq rfl rfl))
    (fun _ command h => h.trans (follows_submit _ command)) (.of_eq rfl rfl)

theorem follows_dispatchAll (gateway : Gateway) (frames : List Bytes) :
    Follows gateway (gateway.dispatchAll frames).2 := by
  induction frames generalizing gateway with
  | nil => exact .of_eq rfl rfl
  | cons frame rest ih => exact (follows_dispatch gateway frame).trans (ih _)

theorem follows_perform (gateway : Gateway) (act : Act) :
    Follows gateway (gateway.perform act) := by
  cases act with
  | push chunk =>
      have hgiven : Follows gateway
          { gateway with assembler := (gateway.assembler.push chunk gateway.now).2 } :=
        .of_eq rfl rfl
      exact hgiven.trans ((follows_dispatchAll _ _).trans (follows_finishIssued _))
  | command command => exact (follows_submit gateway command).trans (follows_finishIssued _)
  | shutdown => exact follows_shutdown gateway
  | turn => exact follows_turn gateway
  | settle => exact follows_settle gateway
  | advance ms => exact follows_advance gateway ms

theorem follows_performAll (gateway : Gateway) (acts : List Act) :
    Follows gateway (gateway.performAll acts) := by
  induction acts generalizing gateway with
  | nil => exact .of_eq rfl rfl
  | cons act rest ih => exact (follows_perform gateway act).trans (ih _)

/-- A gateway is carried by an exchange that is attentive and sound. -/
theorem exists_attentive (h : Life config budget gateway) :
    ∃ ex : Exchange, ex.Carries gateway.bus gateway.queue [] ∧ ex.Attentive ∧ ex.Sound := by
  obtain ⟨_, txDelay, hleads⟩ := exists_run h
  obtain ⟨acts, hcarries⟩ := hleads { capacity? := none }
  exact ⟨_, hcarries, Exchange.attentive_run _ _ _ _ acts, Exchange.sound_run _ _ _ _ acts⟩

/-- A queue that waits has read no more than was published. -/
theorem heard_of_life (h : Life config budget gateway) {sending : Sending} {deadline : Nat}
    (hphase : gateway.queue.phase = .waiting sending deadline) :
    gateway.queue.watcher.events.position ≤ gateway.bus.published := by
  obtain ⟨ex, ⟨hbus, hqueue, _⟩, hattentive, _⟩ := exists_attentive h
  rw [← hqueue] at hphase ⊢
  obtain ⟨early, since, read, hread⟩ := hattentive.waits sending deadline hphase
  rw [← hbus, hattentive.holds.published, hread.publishedIn_eq, hread.position, List.length_append]
  have hlength := hread.first.length_le
  omega

/-- A gateway that was not shut down does not stop. -/
theorem quiet_of_life (h : Life config budget gateway)
    (hraised : gateway.queue.signal.raised = false) :
    gateway.queue.endTurn.stopping = false := by
  obtain ⟨ex, ⟨_, hqueue, _⟩, hattentive, _⟩ := exists_attentive h
  have hheard := hattentive.heard
  rw [hqueue] at hheard
  have hnone : gateway.queue.signal.raisings = 0 := by
    unfold StopSignal.raised at hraised
    simpa using hraised
  refine CommandQueue.stopping_eq_false_iff.2 ⟨?_, ?_⟩
  · change gateway.queue.signal.raisings = gateway.queue.watcher.signal.raisings
    omega
  · have hheld := (exists_run h).1.endTurn
    unfold CommandQueue.Held at hheld
    omega

/-! ## What is published around a queue that waits -/

/-- The queue does nothing while these events are published. -/
structure Spares (gateway : Gateway) (events : List Event) (next : Gateway) : Prop where
  phase : next.queue.phase = gateway.queue.phase
  watcher : next.queue.watcher = gateway.queue.watcher
  bus : next.bus = gateway.bus.publishAll events

theorem Spares.of_eq (hbus : next.bus = gateway.bus) (hqueue : next.queue = gateway.queue) :
    Spares gateway [] next := by
  refine ⟨?_, ?_, hbus⟩ <;> rw [hqueue]

theorem Spares.trans (h : Spares gateway events middle) (hnext : Spares middle more next) :
    Spares gateway (events ++ more) next where
  phase := hnext.phase.trans h.phase
  watcher := hnext.watcher.trans h.watcher
  bus := by rw [hnext.bus, h.bus, publishAll_append]

theorem queue_dispatch (gateway : Gateway) (frame : Bytes) :
    (gateway.dispatch frame).2.queue = gateway.queue := by
  unfold dispatch
  generalize (gateway.registry.dispatch frame).run gateway.session = dispatched
  obtain ⟨⟨changes, registry⟩, session⟩ := dispatched
  dsimp only
  split <;> rfl

theorem queue_dispatchAll (gateway : Gateway) (frames : List Bytes) :
    (gateway.dispatchAll frames).2.queue = gateway.queue := by
  induction frames generalizing gateway with
  | nil => rfl
  | cons frame rest ih => exact (ih _).trans (queue_dispatch gateway frame)

theorem spares_dispatch (gateway : Gateway) (frame : Bytes) :
    Spares gateway ((gateway.dispatch frame).1.map .stateChanged) (gateway.dispatch frame).2 := by
  refine ⟨?_, ?_, (gateway.dispatch_spec frame).2⟩ <;> rw [queue_dispatch]

theorem spares_dispatchAll (gateway : Gateway) (frames : List Bytes) :
    Spares gateway ((gateway.dispatchAll frames).1.map .stateChanged)
      (gateway.dispatchAll frames).2 := by
  induction frames generalizing gateway with
  | nil => exact .of_eq rfl rfl
  | cons frame rest ih =>
      rw [dispatchAll_cons, List.map_append]
      exact (spares_dispatch gateway frame).trans (ih _)

theorem spares_submit (gateway : Gateway) (command : DeviceCommand) :
    ∃ events, Spares gateway events (gateway.submit command).2 := by
  rcases gateway.submit_cases command with ⟨_, events, _, hbus, hqueue⟩ |
    ⟨request, _, _, hbus, henqueue⟩
  · refine ⟨events, ?_, ?_, hbus⟩ <;> rw [hqueue]
  · have hqueue : (gateway.submit command).2.queue = (gateway.queue.enqueue request).2 := by
      rw [henqueue]
    have hsame : (gateway.queue.enqueue request).2.phase = gateway.queue.phase ∧
        (gateway.queue.enqueue request).2.watcher = gateway.queue.watcher := by
      unfold CommandQueue.enqueue
      split
      · exact ⟨rfl, rfl⟩
      · exact ⟨CommandQueue.phase_append _ _, CommandQueue.watcher_append _ _⟩
    rw [← hqueue] at hsame
    exact ⟨gateway.implied command, hsame.1, hsame.2, hbus⟩

theorem spares_finishIssued (gateway : Gateway) :
    ∃ events, Spares gateway events gateway.finishIssued := by
  refine finishIssued_of (P := fun next => ∃ events, Spares gateway events next) ?_ ?_
    ⟨[], .of_eq rfl rfl⟩
  · rintro next ⟨events, h⟩
    exact ⟨events ++ [], h.trans (.of_eq rfl rfl)⟩
  · rintro next command ⟨events, h⟩
    obtain ⟨more, hsubmit⟩ := spares_submit next command
    exact ⟨events ++ more, h.trans hsubmit⟩

theorem spares_push (gateway : Gateway) (chunk : Bytes) :
    ∃ more, Spares gateway ((gateway.push chunk).1.map .stateChanged ++ more)
      (gateway.push chunk).2 := by
  let given : Gateway := { gateway with assembler := (gateway.assembler.push chunk gateway.now).2 }
  let frames := (gateway.assembler.push chunk gateway.now).1
  have hgiven : Spares gateway [] given := .of_eq rfl rfl
  obtain ⟨more, hissued⟩ := spares_finishIssued (given.dispatchAll frames).2
  exact ⟨more, hgiven.trans ((spares_dispatchAll given frames).trans hissued)⟩

/-- What octets bring while a queue waits for the device confirms its command: a change of the
state of the device, or more events than the bus keeps. -/
def Hears (gateway : Gateway) (id : String) (chunk : Bytes) : Prop :=
  (∃ change ∈ (gateway.push chunk).1, change.deviceId = id) ∨
    0 < (gateway.push chunk).2.bus.skipped (gateway.push chunk).2.queue.watcher.events

theorem Spares.owes (h : Spares gateway events next) (hlife : Life config budget gateway)
    {job : Job} {k left deadline : Nat}
    (hphase : gateway.queue.phase = .waiting ⟨job, k, left⟩ deadline)
    (hconfirms : (∃ event ∈ events, event.confirms job.request.deviceId = true) ∨
      0 < next.bus.skipped next.queue.watcher.events) : Owes next.bus next.queue job k where
  phase := ⟨left, deadline, h.phase.trans hphase⟩
  unread := by
    obtain ⟨before, hmirrors⟩ := exists_mirrors hlife
    have hholds := hmirrors.holds
    have hheard := heard_of_life hlife hphase
    rw [hholds.published] at hheard
    by_cases hlagged : 0 < next.bus.skipped next.queue.watcher.events
    · exact .inl hlagged
    · obtain ⟨event, hevent, hconfirming⟩ := hconfirms.resolve_right hlagged
      refine .inr ⟨event, ?_, hconfirming⟩
      have hafter := hholds.publishAll events
      rw [← h.bus] at hafter
      rw [hafter.unread_eq (by omega), h.watcher, List.drop_append_of_le_length hheard]
      exact List.mem_append_right _ hevent

theorem Hears.owes {chunk : Bytes} {job : Job} {k left deadline : Nat}
    (h : gateway.Hears job.request.deviceId chunk) (hlife : Life config budget gateway)
    (hphase : gateway.queue.phase = .waiting ⟨job, k, left⟩ deadline) :
    Owes (gateway.push chunk).2.bus (gateway.push chunk).2.queue job k := by
  obtain ⟨more, hspares⟩ := spares_push gateway chunk
  refine hspares.owes hlife hphase (h.imp_left ?_)
  rintro ⟨change, hchange, hid⟩
  exact ⟨.stateChanged change, List.mem_append_left _ (List.mem_map_of_mem hchange),
    beq_iff_eq.2 hid⟩

/-- A command that waits when its device changes is confirmed, whatever comes later, unless the
gateway is shut down first. -/
theorem done_of_hears {chunk : Bytes} {job : Job} {k left deadline : Nat}
    (h : gateway.Hears job.request.deviceId chunk) (hlife : Life config budget gateway)
    (hphase : gateway.queue.phase = .waiting ⟨job, k, left⟩ deadline) (more : List Act)
    (hraised : ((gateway.push chunk).2.performAll more).queue.signal.raised = false) :
    let after := (gateway.push chunk).2.performAll more
    (∃ time, .done time job.ticket (.ok k) ∈ after.queue.log) ∨
      .done after.now job.ticket (.ok k) ∈ after.settle.queue.log := by
  have hpushed := hlife.push chunk
  have howes := h.owes hlife hphase
  have hquiet := quiet_of_life (hpushed.performAll more) hraised
  obtain ⟨ex, hcarries, hattentive, hsound⟩ := exists_attentive hpushed
  have hleads := (follows_performAll (gateway.push chunk).2 more).leads (exists_run hpushed).1 ex
    hcarries
  obtain ⟨acts, hbus, hqueue, _⟩ := hleads
  rw [← hcarries.bus, ← hcarries.queue] at howes
  rw [← hqueue] at hquiet
  have hdone := hattentive.done_or_settle hsound howes acts hquiet
  rw [hbus, hqueue] at hdone
  exact hdone

end PanelBus.Gateway
