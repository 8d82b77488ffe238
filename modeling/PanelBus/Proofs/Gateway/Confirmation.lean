import Mathlib
import PanelBus.Proofs.Gateway.Life
import PanelBus.Proofs.Sending.Confirmation
/-!
# What confirms a command

Main statement: `confirmation_of_run`.  A command counts as confirmed by what is published while one
of its sendings waits and by nothing else; the change that a gateway publishes for a command comes
before all sendings of that command.
-/

namespace PanelBus

namespace Exchange

theorem run_publish (ex : Exchange) (events : List Event) :
    ex.run (events.map .publish) =
      { ex with
        bus := ex.bus.publishAll events
        timeline := ex.timeline ++ events.map .published } := by
  induction events generalizing ex with
  | nil =>
      rw [List.map_nil, List.map_nil, List.append_nil]
      rfl
  | cons event rest ih =>
      rw [List.map_cons]
      change (ex.step (.publish event)).run _ = _
      rw [ih]
      simp only [step, List.append_assoc, List.singleton_append, List.map_cons]
      rfl

/-- A command that a gateway takes: the change that it implies is published, then it is put in. -/
theorem exists_run_of_submit {ex : Exchange} {gateway : Gateway} {command : DeviceCommand}
    {ticket : Nat} (hex : ex.Carries gateway.bus gateway.queue []) (hheld : gateway.queue.Held 1)
    (hsubmit : (gateway.submit command).1 = .ok ticket) :
    ∃ acts request, request.deviceId = command.deviceId ∧
      (ex.run acts).Carries (gateway.submit command).2.bus (gateway.submit command).2.queue [] ∧
      (ex.run acts).timeline = ex.timeline ++ (gateway.implied command).map .published ++
        [.accepted ⟨ticket, request⟩] := by
  obtain ⟨hbus, hqueue, hcoming⟩ := hex
  rcases gateway.submit_cases command with ⟨error, _, hrefused, _⟩ |
    ⟨request, hdevice, hattached, hnextbus, henqueue⟩
  · rw [hrefused] at hsubmit
    cases hsubmit
  rw [hsubmit] at henqueue
  have hrequest : { request with attached := false } = request := by rw [← hattached]
  have hheld : ex.queue.signal.holders ≠ 0 := hqueue ▸ hheld.holders_ne_zero
  have hrun : ex.run ((gateway.implied command).map .publish ++ [.enqueue request]) =
      { ex with
        bus := ex.bus.publishAll (gateway.implied command)
        queue := (gateway.submit command).2.queue
        timeline := ex.timeline ++ (gateway.implied command).map .published ++
          [.accepted ⟨ticket, request⟩] } := by
    rw [run_append, run_publish]
    change Exchange.step _ (.enqueue request) = _
    rw [← hqueue] at henqueue
    simp only [step, hheld, if_false, hrequest, henqueue]
  refine ⟨(gateway.implied command).map .publish ++ [.enqueue request], request, hdevice, ?_, ?_⟩
  · rw [hrun, hnextbus, ← hbus]
    exact ⟨rfl, rfl, hcoming⟩
  · rw [hrun]

/-- Whenever a command gets the result that its `k`-th sending was confirmed, that sending waits,
and since it the state of the device has changed or the queue has missed events, more than the bus
keeps.  Conversely a sending that waits and has something like that since brings the result, at the
latest when the queue comes to rest, unless the queue is told to stop or nobody holds it any more.
Whatever was published before a command was accepted is before all its sendings, and so is the
change that a gateway publishes for it. -/
theorem confirmation_of_run (capacity txDelay : Nat) (earlier : List Event) (outlet : Outlet)
    (acts : List Act) :
    let ex := (start capacity txDelay earlier outlet).run acts
    (∀ time ticket k, .reported (.done time ticket (.ok k)) ∈ ex.timeline →
      ∃ first act rest, acts = first ++ act :: rest ∧
        let before := (start capacity txDelay earlier outlet).run first
        .reported (.done time ticket (.ok k)) ∈ (before.step act).timeline ∧
          ∃ job early since, job.ticket = ticket ∧ before.WaitsSince job k early since ∧
            before.Confirmed job.request.deviceId since) ∧
    (∀ job k early since, ex.WaitsSince job k early since →
      0 < ex.bus.skipped ex.queue.watcher.events →
        ex.bus.capacity < (publishedIn since).length) ∧
    (∀ job k early since, ex.WaitsSince job k early since →
      ex.Confirmed job.request.deviceId since →
        ∀ more, (ex.run more).queue.endTurn.stopping = false →
          (∃ time, .done time job.ticket (.ok k) ∈ (ex.run more).queue.log) ∨
            .done (ex.run more).queue.now job.ticket (.ok k) ∈
              ((ex.run more).queue.settle (ex.run more).bus).log) ∧
    (∀ job k early since before after, ex.WaitsSince job k early since →
      ex.timeline = before ++ .accepted job :: after → before ++ [.accepted job] <+: early) ∧
    (∀ config budget gateway command ticket, Gateway.Life config budget gateway →
      (gateway.submit command).1 = .ok ticket →
        ∃ txDelay acts before request,
          let after := (start EventBus.defaultCapacity txDelay [] outlet).run acts
          request.deviceId = command.deviceId ∧
            after.Carries (gateway.submit command).2.bus (gateway.submit command).2.queue [] ∧
            after.timeline = before ++ (gateway.implied command).map .published ++
              [.accepted ⟨ticket, request⟩] ∧
            ∀ more k early since, (after.run more).WaitsSince ⟨ticket, request⟩ k early since →
              after.timeline <+: early) := by
  intro ex
  have hattentive : ex.Attentive := attentive_run capacity txDelay earlier outlet acts
  have hsound : ex.Sound := sound_run capacity txDelay earlier outlet acts
  refine ⟨?_, ?_, ?_, ?_, ?_⟩
  · intro time ticket k hdone
    have hnone : .reported (.done time ticket (.ok k)) ∉
        (start capacity txDelay earlier outlet).timeline := by
      simp [start]
    exact (attentive_start capacity txDelay earlier outlet).exists_confirmed
      (sound_start capacity txDelay earlier outlet) hnone hdone
  · intro job k early since hwaits hlagged
    exact hattentive.capacity_lt hwaits hlagged
  · intro job k early since hwaits hconfirmed more hquiet
    exact hattentive.done_or_settle hsound (hattentive.owes hwaits hconfirmed) more hquiet
  · intro job k early since before after hwaits htimeline
    exact hsound.accepted_early hwaits htimeline
  · intro config budget gateway command ticket hlife hsubmit
    obtain ⟨hheld, delay, hleads⟩ := Gateway.exists_run hlife
    obtain ⟨first, hcarries⟩ := hleads outlet
    obtain ⟨second, request, hdevice, hafter, htimeline⟩ :=
      exists_run_of_submit hcarries hheld hsubmit
    rw [← run_append] at hafter htimeline
    refine ⟨delay, first ++ second, _, request, hdevice, hafter, htimeline, ?_⟩
    intro more k early since hwaits
    obtain ⟨rest, hrest⟩ := timeline_prefix_run _ more
    rw [← run_append] at hwaits hrest
    rw [htimeline, List.append_assoc, List.singleton_append] at hrest
    rw [htimeline]
    exact (sound_run _ delay [] outlet _).accepted_early hwaits hrest.symm

/-- A command to the lamp waits while the bus, which keeps one event, is flooded. -/
def lampFlooded : List Act :=
  [.enqueue lampRequest, .move, .publish (.deviceError none .parse ""),
    .publish (.deviceError none .parse "")]

/-- A lamp whose state is taken to change with the command. -/
def lampConfig : GatewayConfig :=
  { settings := { rxHeader := [0xf7], rxLength? := some 4, txHeader := [0xf7] }
    entities := [{
      common := { id := "lamp", state? := some { data := [0x0e] }, optimistic := true }
      features := .light { turnOn? := some { data := [0x01] } } }] }

theorem waitsSince_lampFlooded :
    ((start 1 0 [] { capacity? := none }).run lampFlooded).WaitsSince ⟨0, lampRequest⟩ 1
      [.accepted ⟨0, lampRequest⟩, .reported (.taken 0 0)]
      [.published (.deviceError none .parse ""), .published (.deviceError none .parse "")] where
  phase := ⟨2, 100, by cbv⟩
  timeline := ⟨0, by cbv⟩
  before := rfl
  after := rfl

theorem submit_lampConfig :
    ∃ gateway, Gateway.Life lampConfig {} gateway ∧
      (gateway.submit ⟨"lamp", "on", none⟩).1 = .ok 0 ∧
        (gateway.implied ⟨"lamp", "on", none⟩).length = 1 := by
  have hsubmit : (Gateway.ofConfig lampConfig {}).toOption.map (fun gateway =>
      ((gateway.submit ⟨"lamp", "on", none⟩).1.toOption,
        (gateway.implied ⟨"lamp", "on", none⟩).length)) = some (some 0, 1) := by
    cbv
  cases hgateway : Gateway.ofConfig lampConfig {} with
  | error error =>
      rw [hgateway] at hsubmit
      cases hsubmit
  | ok gateway =>
      rw [hgateway] at hsubmit
      obtain ⟨hticket, himplied⟩ := Prod.mk.inj (Option.some.inj hsubmit)
      refine ⟨gateway, .opened hgateway, ?_, himplied⟩
      cases hresult : (gateway.submit ⟨"lamp", "on", none⟩).1 with
      | error error =>
          rw [hresult] at hticket
          cases hticket
      | ok ticket =>
          rw [hresult] at hticket
          exact congrArg _ (Option.some.inj hticket)

theorem confirmation_of_run_lamp :
    (∃ first act rest, lampActs = first ++ act :: rest ∧ ∃ job early since, job.ticket = 0 ∧
      ((start 4 0 [] { capacity? := none }).run first).WaitsSince job 2 early since) ∧
    .done 0 0 (.ok 1) ∈ (((start 1 0 [] { capacity? := none }).run lampFlooded).queue.settle
      ((start 1 0 [] { capacity? := none }).run lampFlooded).bus).log ∧
    [.accepted ⟨0, lampRequest⟩] <+: [Happening.accepted ⟨0, lampRequest⟩, .reported (.taken 0 0)] ∧
    ∃ gateway txDelay acts request, Gateway.Life lampConfig {} gateway ∧
      ∀ more k early since, (((start EventBus.defaultCapacity txDelay [] { capacity? := none }).run
        acts).run more).WaitsSince ⟨0, request⟩ k early since →
          ∃ before, before ++ (gateway.implied ⟨"lamp", "on", none⟩).map .published ++
            [.accepted ⟨0, request⟩] <+: early := by
  refine ⟨?_, ?_, ?_, ?_⟩
  · have hdone : .reported (.done 150 0 (.ok 2)) ∈
        ((start 4 0 [] { capacity? := none }).run lampActs).timeline :=
      List.mem_of_getElem? (i := 5) (by cbv)
    obtain ⟨first, act, rest, hacts, _, job, early, since, hticket, hwaits, _⟩ :=
      (confirmation_of_run 4 0 [] { capacity? := none } lampActs).1 150 0 2 hdone
    exact ⟨first, act, rest, hacts, job, early, since, hticket, hwaits⟩
  · have hlagged : 0 < ((start 1 0 [] { capacity? := none }).run lampFlooded).bus.skipped
        ((start 1 0 [] { capacity? := none }).run lampFlooded).queue.watcher.events := by
      cbv
    have hconfirmed := (confirmation_of_run 1 0 [] { capacity? := none } lampFlooded).2.2.1
      ⟨0, lampRequest⟩ 1 _ _ waitsSince_lampFlooded (.inr hlagged) []
    refine (hconfirmed (by cbv)).resolve_left ?_
    rintro ⟨time, hdone⟩
    have hlog : ((start 1 0 [] { capacity? := none }).run lampFlooded).queue.log =
        [.sent 0 0 [0xf7, 0x01], .taken 0 0] := by
      cbv
    change _ ∈ ((start 1 0 [] { capacity? := none }).run lampFlooded).queue.log at hdone
    rw [hlog] at hdone
    simp at hdone
  · obtain ⟨time, htimeline⟩ := waitsSince_lampFlooded.timeline
    exact (confirmation_of_run 1 0 [] { capacity? := none } lampFlooded).2.2.2.1
      ⟨0, lampRequest⟩ 1 _ _ [] _ waitsSince_lampFlooded htimeline
  · obtain ⟨gateway, hlife, hsubmit, _⟩ := submit_lampConfig
    obtain ⟨txDelay, acts, before, request, _, _, htimeline, hearly⟩ :=
      (confirmation_of_run 1 0 [] { capacity? := none } []).2.2.2.2 lampConfig {} gateway
        ⟨"lamp", "on", none⟩ 0 hlife hsubmit
    refine ⟨gateway, txDelay, acts, request, hlife, ?_⟩
    intro more k early since hwaits
    exact ⟨before, htimeline ▸ hearly more k early since hwaits⟩

/-- The lamp answers at once, but the last one who holds the queue lets it go before the queue has
read the answer.  Nobody has raised the signal to stop, and the sending waits until 100, but the
command is stopped. -/
theorem stopped_when_released :
    let ex := (start EventBus.defaultCapacity 0 [] { capacity? := none }).run
      [.enqueue lampRequest, .move, .publish (.stateChanged ⟨"lamp", [], []⟩), .release]
    ex.queue.signal.raised = false ∧ ex.queue.now = 0 ∧ ex.queue.due? = some 100 ∧
      (∃ early since, ex.WaitsSince ⟨0, lampRequest⟩ 1 early since ∧ ex.Confirmed "lamp" since) ∧
      (ex.queue.settle ex.bus).log =
        [.done 0 0 (.error .stopped), .sent 0 0 [0xf7, 0x01], .taken 0 0] := by
  refine ⟨by cbv, by cbv, by cbv, ?_, by cbv⟩
  refine ⟨[.accepted ⟨0, lampRequest⟩, .reported (.taken 0 0)],
    [.published (.stateChanged ⟨"lamp", [], []⟩)], ⟨⟨2, 100, by cbv⟩, ⟨0, by cbv⟩, rfl, rfl⟩, ?_⟩
  exact .inl ⟨_, List.mem_cons_self, rfl⟩

end Exchange

end PanelBus
