import PanelBus.Proofs.Gateway.Hearing
import PanelBus.Proofs.Gateway.Twins
import PanelBus.Proofs.Sending.Calm
/-!
# States that are taken to change with a command

Main statement: `confirmation_of_twins`.  A device confirms a command by a change of its state.
When the change that a command implies is published with the command, a device that then reports
just this state changes nothing any more, and the command is not confirmed.
-/

namespace PanelBus.Gateway

open CommandQueue (Pressed Abreast)

variable {config other : GatewayConfig} {budget : Expr.Budget} {gateway : Gateway} {id : String}

/-! ## A command on its own -/

/-- No command is put in. -/
def Silent (deeds : List Deed) : Prop := deeds.filterMap Deed.command? = []

theorem finishIssued_of_silent (h : Silent gateway.finishDeeds) :
    gateway.finishIssued = gateway.takeIssued.2 := by
  change Silent (issuedDeeds maxIssued gateway.takeIssued.1 gateway.takeIssued.2) at h
  change runIssued maxIssued gateway.takeIssued.1 gateway.takeIssued.2 = _
  cases hissued : gateway.takeIssued.1 with
  | nil => rfl
  | cons command rest =>
      rw [hissued] at h
      cases h

theorem push_of_silent {chunk : Bytes} (h : Silent (gateway.deeds (.push chunk))) :
    (gateway.push chunk).2.queue = gateway.queue ∧
      (gateway.push chunk).2.bus =
        gateway.bus.publishAll ((gateway.push chunk).1.map .stateChanged) := by
  let given : Gateway := { gateway with assembler := (gateway.assembler.push chunk gateway.now).2 }
  let frames := (gateway.assembler.push chunk gateway.now).1
  have hfinish : (given.dispatchAll frames).2.finishIssued =
      (given.dispatchAll frames).2.takeIssued.2 := by
    refine finishIssued_of_silent ?_
    have hsilent : Silent (given.frameDeeds frames ++ (given.dispatchAll frames).2.finishDeeds) := h
    unfold Silent at hsilent
    rw [List.filterMap_append] at hsilent
    exact (List.append_eq_nil_iff.1 hsilent).2
  change (given.dispatchAll frames).2.finishIssued.queue = _ ∧
    (given.dispatchAll frames).2.finishIssued.bus = _
  rw [hfinish]
  exact ⟨queue_dispatchAll given frames, (spares_dispatchAll given frames).bus⟩

theorem not_silent_command {command : DeviceCommand} :
    ¬Silent (gateway.deeds (.command command)) := nofun

/-- Without a command put in, the queue gets none. -/
theorem unfinished_perform_subset {act : Act} (h : Silent (gateway.deeds act)) :
    (gateway.perform act).queue.unfinished ⊆ gateway.queue.unfinished := by
  cases act with
  | push chunk =>
      change (gateway.push chunk).2.queue.unfinished ⊆ _
      rw [(push_of_silent h).1]
      exact List.Subset.refl _
  | command command => exact absurd h not_silent_command
  | shutdown => exact List.Subset.refl _
  | turn =>
      exact CommandQueue.turn_of (P := fun later => later.unfinished ⊆ gateway.queue.unfinished)
        (fun _ _ h hmove => List.Subset.trans hmove.unfinished_subset h) (fun _ _ h => h)
        (List.Subset.refl _)
  | settle => exact CommandQueue.unfinished_runUntil_subset _ _ _
  | advance ms => exact CommandQueue.unfinished_runUntil_subset _ _ _

theorem silent_cons {act : Act} {acts : List Act} (h : Silent (gateway.deedsAll (act :: acts))) :
    Silent (gateway.deeds act) ∧ Silent ((gateway.perform act).deedsAll acts) := by
  change Silent (gateway.deeds act ++ (gateway.perform act).deedsAll acts) at h
  unfold Silent at h
  rw [List.filterMap_append] at h
  exact List.append_eq_nil_iff.1 h

theorem unfinished_performAll_subset {acts : List Act} (h : Silent (gateway.deedsAll acts)) :
    (gateway.performAll acts).queue.unfinished ⊆ gateway.queue.unfinished := by
  induction acts generalizing gateway with
  | nil => exact List.Subset.refl _
  | cons act rest ih =>
      obtain ⟨hnow, hlater⟩ := silent_cons h
      exact List.Subset.trans (ih hlater) (unfinished_perform_subset hnow)

/-- A gateway has the command confirmed, or its queue is abreast of that of another one, with no
command but this. -/
def Ahead (ticket : Nat) (id : String) (plain eager : Gateway) : Prop :=
  (∃ time k, .done time ticket (.ok k) ∈ eager.queue.log) ∨
    (Abreast plain.bus plain.queue eager.bus eager.queue ∧
      ∀ job ∈ eager.queue.unfinished, job.ticket = ticket ∧ job.request.deviceId = id)

theorem log_suffix_perform (h : Life config budget gateway) (act : Act) :
    gateway.queue.log <:+ (gateway.perform act).queue.log := by
  obtain ⟨ex, hcarries, _⟩ := exists_attentive h
  obtain ⟨acts, _, hqueue, _⟩ := (follows_perform gateway act).leads (exists_run h).1 ex hcarries
  rw [← hqueue, ← hcarries.queue]
  exact ex.log_suffix_run acts

theorem mem_unfinished_of_waiting {queue : CommandQueue} {job : Job} {k left deadline : Nat}
    (h : queue.phase = .waiting ⟨job, k, left⟩ deadline) : job ∈ queue.unfinished := by
  have hsending : queue.phase.sending? = some ⟨job, k, left⟩ := by
    rw [h]
    rfl
  rw [CommandQueue.unfinished, CommandQueue.current_of_phase hsending]
  exact List.mem_cons_self

/-- What the queue finds to read that it did not find before has just been published. -/
theorem hears_of_pressed (hlife : Life config budget gateway) {chunk : Bytes}
    (hsilent : Silent (gateway.deeds (.push chunk)))
    (honly : ∀ job ∈ gateway.queue.unfinished, job.request.deviceId = id)
    (hbefore : ¬Pressed gateway.bus gateway.queue)
    (hafter : Pressed (gateway.push chunk).2.bus gateway.queue) : gateway.Hears id chunk := by
  obtain ⟨hqueue, hbus⟩ := push_of_silent hsilent
  obtain ⟨events, hmirrors⟩ := exists_mirrors hlife
  obtain ⟨job, k, howes⟩ := hafter
  obtain ⟨left, deadline, hphase⟩ := howes.phase
  have hid := honly job (mem_unfinished_of_waiting hphase)
  by_cases hlagged :
      0 < (gateway.push chunk).2.bus.skipped (gateway.push chunk).2.queue.watcher.events
  · exact .inr hlagged
  · rw [hqueue] at hlagged
    obtain ⟨event, hevent, hconfirms⟩ := howes.unread.resolve_left hlagged
    have hkept : gateway.bus.skipped gateway.queue.watcher.events = 0 :=
      Nat.eq_zero_of_not_pos fun hmissed => hbefore ⟨job, k, ⟨left, deadline, hphase⟩, .inl hmissed⟩
    have hholds := hmirrors.holds.publishAll ((gateway.push chunk).1.map .stateChanged)
    rw [← hbus] at hholds
    rw [hholds.unread_eq (by omega), List.drop_append] at hevent
    rcases List.mem_append.1 hevent with hold | hnew
    · rw [← hmirrors.holds.unread_eq hkept] at hold
      exact absurd ⟨job, k, ⟨left, deadline, hphase⟩, .inr ⟨event, hold, hconfirms⟩⟩ hbefore
    · obtain ⟨change, hchange, rfl⟩ := List.mem_map.1 (List.mem_of_mem_drop hnew)
      exact .inl ⟨change, hchange, (beq_iff_eq.1 hconfirms).trans hid⟩

section abreast

variable {plain eager : Gateway} {ticket : Nat} (hplain : Life config budget plain)
  (heager : Life other budget eager)
  (habreast : Abreast plain.bus plain.queue eager.bus eager.queue)
  (honly : ∀ job ∈ eager.queue.unfinished, job.ticket = ticket ∧ job.request.deviceId = id)

include hplain habreast honly

theorem ahead_shutdown : Ahead ticket id plain.shutdown eager.shutdown := by
  have hgist := congrArg CommandQueue.shutdown habreast.gist
  refine .inr ⟨⟨hgist, ?_⟩, honly⟩
  intro hquiet
  obtain ⟨ex, ⟨_, hqueue, _⟩, hattentive, _⟩ := exists_attentive hplain
  have hheard := hattentive.heard
  rw [hqueue] at hheard
  have hraisings := (CommandQueue.stopping_eq_false_iff.1 hquiet).1
  change plain.queue.signal.raisings + 1 = plain.queue.watcher.signal.raisings at hraisings
  omega

include heager

theorem ahead_push {chunk : Bytes} (hsilent : Silent (plain.deeds (.push chunk)))
    (hsilent' : Silent (eager.deeds (.push chunk)))
    (hhears : plain.queue.unfinished ≠ [] → plain.Hears id chunk → eager.Hears id chunk) :
    Ahead ticket id (plain.push chunk).2 (eager.push chunk).2 := by
  obtain ⟨hqueue, hbus⟩ := push_of_silent hsilent
  obtain ⟨hqueue', hbus'⟩ := push_of_silent hsilent'
  refine .inr ⟨⟨?_, ?_⟩, ?_⟩
  · rw [hqueue, hqueue']
    exact habreast.gist
  · rw [hqueue, hqueue']
    intro hquiet hpressed
    -- A confirmation was there to be read before, or it has come with these octets.
    by_cases hbefore : Pressed plain.bus plain.queue
    · obtain ⟨job, k, howes⟩ := habreast.pressed hquiet hbefore
      obtain ⟨_, hmirrors⟩ := exists_mirrors heager
      rw [hbus']
      exact ⟨job, k, howes.publishAll hmirrors.holds _⟩
    · have hheard := hears_of_pressed hplain hsilent
        (fun job hjob => (honly job (habreast.unfinished_eq ▸ hjob)).2) hbefore hpressed
      obtain ⟨job, k, howes⟩ := hpressed
      obtain ⟨left, deadline, hphase⟩ := howes.phase
      have hnews := hhears (List.ne_nil_of_mem (mem_unfinished_of_waiting hphase)) hheard
      rw [← habreast.phase_eq] at hphase
      have hid := (honly job (mem_unfinished_of_waiting hphase)).2
      rw [← hid] at hnews
      have howes' := hnews.owes heager hphase
      rw [hqueue'] at howes'
      exact ⟨job, k, howes'⟩
  · rw [hqueue']
    exact honly

/-- When the queues go on up to some time, a confirmation that is there to be read is found. -/
theorem ahead_runUntil (target : Nat) :
    (∃ time k, .done time ticket (.ok k) ∈ (eager.queue.runUntil eager.bus target).log) ∨
      (Abreast plain.bus (plain.queue.runUntil plain.bus target) eager.bus
          (eager.queue.runUntil eager.bus target) ∧
        ∀ job ∈ (eager.queue.runUntil eager.bus target).unfinished,
          job.ticket = ticket ∧ job.request.deviceId = id) := by
  obtain ⟨_, hmirrors⟩ := exists_mirrors hplain
  obtain ⟨_, hmirrors'⟩ := exists_mirrors heager
  have hheld := (exists_run hplain).1
  have hheld' := (exists_run heager).1
  rcases habreast.runUntil hmirrors.holds hheld hmirrors'.holds hheld' target with
    ⟨hquiet, job, k, howes⟩ | hafter
  · obtain ⟨left, deadline, hphase⟩ := howes.phase
    have hraisings := (CommandQueue.stopping_eq_false_iff.1 hquiet).1
    have hend : eager.queue.endTurn.stopping = false :=
      CommandQueue.stopping_eq_false_iff.2 ⟨hraisings, hheld'.endTurn.holders_ne_zero⟩
    have hdone := howes.runUntil hmirrors'.holds hend target
    rw [(honly job (mem_unfinished_of_waiting hphase)).1] at hdone
    exact .inl ⟨_, k, hdone⟩
  · exact .inr ⟨hafter, fun job hjob =>
      honly job (CommandQueue.unfinished_runUntil_subset _ _ _ hjob)⟩

theorem ahead_settle : Ahead ticket id plain.settle eager.settle := by
  have hnow := habreast.now_eq
  have hrun := ahead_runUntil hplain heager habreast honly plain.queue.now
  unfold settle CommandQueue.settle Ahead
  rw [hnow]
  exact hrun.imp_right fun ⟨hafter, hrest⟩ => ⟨hafter.endTurn, hrest⟩

theorem ahead_advance (ms : Nat) :
    Ahead ticket id (plain.advance ms) (eager.advance ms) := by
  have hnow := habreast.now_eq
  have hrun := ahead_runUntil hplain heager habreast honly (plain.queue.now + ms)
  unfold advance CommandQueue.advance Ahead
  rw [hnow]
  exact hrun.imp_right fun ⟨hafter, hrest⟩ => ⟨hafter.endTurn.at _, hrest⟩

end abreast

/-- If the act is a turn of the queue, the queue does not use it up. -/
def Completes (act : Act) (gateway : Gateway) : Prop :=
  act = .turn → (gateway.queue.turn gateway.bus).isSpent = false

theorem perform_turn_eq (h : Life config budget gateway) (hcompletes : Completes .turn gateway) :
    gateway.perform .turn = gateway.settle := by
  have hqueue := CommandQueue.endTurn_turn_eq (exists_run h).1 (hcompletes rfl)
  exact congrArg (fun queue => { gateway with queue }) hqueue

theorem Ahead.perform {plain eager : Gateway} {ticket : Nat} (h : Ahead ticket id plain eager)
    (hplain : Life config budget plain) (heager : Life other budget eager) {act : Act}
    (hcompletes : Completes act plain) (hcompletes' : Completes act eager)
    (hsilent : Silent (plain.deeds act)) (hsilent' : Silent (eager.deeds act))
    (hhears : ∀ chunk, act = .push chunk → plain.queue.unfinished ≠ [] → plain.Hears id chunk →
      eager.Hears id chunk) :
    Ahead ticket id (plain.perform act) (eager.perform act) := by
  rcases h with ⟨time, k, hdone⟩ | ⟨habreast, honly⟩
  · exact .inl ⟨time, k, (log_suffix_perform heager act).mem hdone⟩
  cases act with
  | push chunk => exact ahead_push hplain heager habreast honly hsilent hsilent' (hhears chunk rfl)
  | command command => exact absurd hsilent not_silent_command
  | shutdown => exact ahead_shutdown hplain habreast honly
  | turn =>
      rw [perform_turn_eq hplain hcompletes, perform_turn_eq heager hcompletes']
      exact ahead_settle hplain heager habreast honly
  | settle => exact ahead_settle hplain heager habreast honly
  | advance ms => exact ahead_advance hplain heager habreast honly ms

/-- No turn of the queue is used up. -/
def CompletesAll : List Act → Gateway → Prop
  | [], _ => True
  | act :: rest, gateway => Completes act gateway ∧ CompletesAll rest (gateway.perform act)

/-- While a command is unfinished in one gateway, what confirms it there does so in the other. -/
def Echoes (id : String) : List Act → Gateway → Gateway → Prop
  | [], _, _ => True
  | act :: rest, plain, eager =>
    (∀ chunk, act = .push chunk → plain.queue.unfinished ≠ [] → plain.Hears id chunk →
      eager.Hears id chunk) ∧ Echoes id rest (plain.perform act) (eager.perform act)

theorem Ahead.performAll {plain eager : Gateway} {ticket : Nat} (h : Ahead ticket id plain eager)
    (hplain : Life config budget plain) (heager : Life other budget eager) {acts : List Act}
    (hcompletes : CompletesAll acts plain) (hcompletes' : CompletesAll acts eager)
    (hsilent : Silent (plain.deedsAll acts)) (hsilent' : Silent (eager.deedsAll acts))
    (hechoes : Echoes id acts plain eager) :
    Ahead ticket id (plain.performAll acts) (eager.performAll acts) := by
  induction acts generalizing plain eager with
  | nil => exact h
  | cons act rest ih =>
      obtain ⟨hnow, hlater⟩ := silent_cons hsilent
      obtain ⟨hnow', hlater'⟩ := silent_cons hsilent'
      obtain ⟨hhears, hechoes⟩ := hechoes
      have hstep := h.perform hplain heager hcompletes.1 hcompletes'.1 hnow hnow' hhears
      exact ih hstep (hplain.perform act) (heager.perform act) hcompletes.2 hcompletes'.2 hlater
        hlater' hechoes

theorem unfinished_enqueue {queue : CommandQueue} {request : SendRequest} {ticket : Nat}
    (h : (queue.enqueue request).1 = .ok ticket) :
    (queue.enqueue request).2.phase = queue.phase ∧
      ∀ job ∈ (queue.enqueue request).2.unfinished,
        job ∈ queue.unfinished ∨ job = ⟨ticket, request⟩ := by
  unfold CommandQueue.enqueue at h ⊢
  cases hrefusal : queue.refusal? with
  | some error =>
      rw [hrefusal] at h
      cases h
  | none =>
      rw [hrefusal] at h
      dsimp only
      obtain rfl := Except.ok.inj h
      let given : CommandQueue := queue.reserve.2
      refine ⟨given.phase_append _, ?_⟩
      intro job hjob
      have hmem := (given.unfinished_append ⟨queue.issued, request⟩).mem_iff.1 hjob
      exact (List.mem_cons.1 hmem).symm

/-- A command that is the first and only one of twins starts both of them abreast. -/
theorem Twins.ahead {plain eager : Gateway} {ticket : Nat} {command : DeviceCommand}
    (h : Twins command.deviceId plain eager) (hnone : plain.queue.unfinished = [])
    (hok : (plain.submit command).1 = .ok ticket)
    (hsilent : Silent (plain.submit command).2.finishDeeds)
    (hsilent' : Silent (eager.submit command).2.finishDeeds) :
    (eager.submit command).1 = .ok ticket ∧
      Ahead ticket command.deviceId (plain.perform (.command command))
        (eager.perform (.command command)) := by
  have hsame : (eager.submit command).1 = (plain.submit command).1 ∧
      (eager.submit command).2.queue = (plain.submit command).2.queue := by
    obtain ⟨hresult, hqueue, _⟩ := plain.submit_withOptimistic command
    rw [h.same]
    exact ⟨hresult, hqueue⟩
  refine ⟨hsame.1.trans hok, ?_⟩
  change Ahead _ _ (plain.submit command).2.finishIssued (eager.submit command).2.finishIssued
  rw [finishIssued_of_silent hsilent, finishIssued_of_silent hsilent']
  change _ ∨ (Abreast _ (plain.submit command).2.queue _ (eager.submit command).2.queue ∧
    ∀ job ∈ (eager.submit command).2.queue.unfinished, _)
  rw [hsame.2]
  rcases plain.submit_cases command with ⟨error, _, herror, _⟩ | ⟨request, hid, _, _, henqueue⟩
  · rw [hok] at herror
    cases herror
  · have hqueue : (plain.submit command).2.queue = (plain.queue.enqueue request).2 :=
      (congrArg Prod.snd henqueue).symm
    obtain ⟨hphase, honly⟩ := unfinished_enqueue ((congrArg Prod.fst henqueue).trans hok)
    rw [← hqueue] at hphase honly
    refine .inr ⟨⟨rfl, ?_⟩, ?_⟩
    · rintro - ⟨job, k, howes⟩
      obtain ⟨left, deadline, hwaiting⟩ := howes.phase
      have hmem := mem_unfinished_of_waiting (hphase.symm.trans hwaiting)
      rw [hnone] at hmem
      cases hmem
    · intro job hjob
      rcases honly job hjob with hold | rfl
      · rw [hnone] at hold
        cases hold
      · exact ⟨rfl, hid⟩

/-- If a command is the only one, none is put in before it, by expressions along with it, or
later. -/
theorem silent_around {before after : List Act} {command : DeviceCommand}
    (h : (gateway.deedsAll (before ++ .command command :: after)).filterMap Deed.command? =
      [command]) :
    Silent (gateway.deedsAll before) ∧
      Silent ((gateway.performAll before).submit command).2.finishDeeds ∧
      Silent (((gateway.performAll before).perform (.command command)).deedsAll after) := by
  rw [deedsAll_append, List.filterMap_append] at h
  change _ ++ (command :: List.filterMap Deed.command?
    (((gateway.performAll before).submit command).2.finishDeeds ++
      ((gateway.performAll before).perform (.command command)).deedsAll after)) = [command] at h
  rw [List.filterMap_append] at h
  obtain ⟨hbefore, hrest⟩ | ⟨_, hnone⟩ := List.append_eq_singleton_iff.1 h
  · obtain ⟨hissued, hafter⟩ := List.append_eq_nil_iff.1 (List.cons.inj hrest).2
    exact ⟨hbefore, hissued, hafter⟩
  · cases hnone

theorem Silent.quiet {deeds : List Deed} (h : Silent deeds) :
    ∀ deed ∈ deeds, ¬deed.Anticipates id := by
  rintro deed hdeed ⟨command, _, hcommand, _⟩
  have hmem := List.mem_filterMap.2 ⟨deed, hdeed, hcommand⟩
  rw [h] at hmem
  cases hmem

/-- Of two gateways that differ in the flag of one device, the queues do the same until a change of
the device is published before a command for it.  If there is just one command, which is for this
device, and it is confirmed where the flag is not set, then it is confirmed where the flag is set as
well, provided that what confirms it there changes the device here too.  Turns may be given to the
queues at any time afterwards, as long as none is used up. -/
theorem confirmation_of_twins {plain eager : Gateway}
    (hplain : ofConfig (config.withOptimistic id false) budget = .ok plain)
    (heager : ofConfig (config.withOptimistic id true) budget = .ok eager) :
    (∀ before command after ticket,
      let acts := before ++ .command command :: after
      command.deviceId = id →
      CompletesAll after ((plain.performAll before).perform (.command command)) →
      CompletesAll after ((eager.performAll before).perform (.command command)) →
      (plain.deedsAll acts).filterMap Deed.command? = [command] →
      (eager.deedsAll acts).filterMap Deed.command? = [command] →
      Echoes id after ((plain.performAll before).perform (.command command))
        ((eager.performAll before).perform (.command command)) →
      ((plain.performAll before).submit command).1 = .ok ticket →
      ((eager.performAll before).submit command).1 = .ok ticket ∧
        ((∃ time k, .done time ticket (.ok k) ∈ (plain.performAll acts).queue.log) →
          ∃ time k, .done time ticket (.ok k) ∈ (eager.performAll acts).queue.log)) ∧
    (∀ acts, (∀ deed ∈ eager.deedsAll acts, ¬deed.Anticipates id) →
      (eager.performAll acts).queue = (plain.performAll acts).queue) ∧
    ∀ before chunk after job k left deadline,
      (eager.performAll before).queue.phase = .waiting ⟨job, k, left⟩ deadline →
      (eager.performAll before).Hears job.request.deviceId chunk →
      let later := eager.performAll (before ++ .push chunk :: after)
      later.queue.signal.raised = false →
      (∃ time, .done time job.ticket (.ok k) ∈ later.queue.log) ∨
        .done later.now job.ticket (.ok k) ∈ later.settle.queue.log := by
  have htwins := twins_ofConfig hplain heager
  refine ⟨?_, ?_, ?_⟩
  · intro before command after ticket acts hid hcompletes hcompletes' honly honly' hechoes hok
    subst hid
    obtain ⟨hbefore, hissued, hafter⟩ := silent_around honly
    obtain ⟨hbefore', hissued', hafter'⟩ := silent_around honly'
    have hlife := (Life.opened hplain).performAll before
    have hlife' := (Life.opened heager).performAll before
    have hopened : plain.queue.unfinished = [] := by
      obtain ⟨_, _, _, _, _, rfl⟩ := exists_of_ofConfig hplain
      rfl
    have hnone : (plain.performAll before).queue.unfinished = [] := by
      have hsubset := unfinished_performAll_subset hbefore
      rw [hopened] at hsubset
      exact List.subset_nil.1 hsubset
    obtain ⟨hok', hahead⟩ := (htwins.performAll before hbefore'.quiet).ahead hnone hok hissued
      hissued'
    have hlast := hahead.performAll (hlife.perform _) (hlife'.perform _) hcompletes hcompletes'
      hafter hafter' hechoes
    refine ⟨hok', ?_⟩
    rintro ⟨time, k, hdone⟩
    rw [performAll_append] at hdone ⊢
    rcases hlast with hconfirmed | ⟨habreast, _⟩
    · exact hconfirmed
    · refine ⟨time, k, ?_⟩
      change _ ∈ (Gateway.performAll _ after).queue.log
      rw [habreast.log_eq]
      exact hdone
  · intro acts hquiet
    rw [(htwins.performAll acts hquiet).same]
    rfl
  · intro before chunk after job k left deadline hphase hhears later hraised
    have hlife := (Life.opened heager).performAll before
    have hlater : later = ((eager.performAll before).push chunk).2.performAll after :=
      performAll_append eager before (.push chunk :: after)
    rw [hlater] at hraised ⊢
    exact done_of_hears hhears hlife hphase after hraised

/-- The lamp is told to go on and then says that it is off. -/
def offActs : List Act := [.settle, .push [0xf7, 0x0e, 0x00, 0x00], .settle]

/-- What the lamp says changes its state under both flags. -/
theorem confirmation_of_twins_hall : ∃ plain eager,
    ofConfig ((hallConfig true).withOptimistic "hall" false) {} = .ok plain ∧
      ofConfig ((hallConfig true).withOptimistic "hall" true) {} = .ok eager ∧
      ∃ time k, .done time 0 (.ok k) ∈
        (eager.performAll (.command ⟨"hall", "on", none⟩ :: offActs)).queue.log := by
  have hrun : (ofConfig ((hallConfig true).withOptimistic "hall" false) {}).toOption.map
      (fun plain =>
        let acts : List Act := .command ⟨"hall", "on", none⟩ :: offActs
        ((plain.submit ⟨"hall", "on", none⟩).1, (plain.deedsAll acts).filterMap Deed.command?,
          (plain.performAll acts).queue.log)) =
      some (.ok 0, [⟨"hall", "on", none⟩],
        [.done 0 0 (.ok 1), .sent 0 0 [0xf7, 0x01], .taken 0 0]) := by
    cbv
  have hrun' : (ofConfig ((hallConfig true).withOptimistic "hall" true) {}).toOption.map
      (fun eager =>
        ((eager.deedsAll (.command ⟨"hall", "on", none⟩ :: offActs)).filterMap Deed.command?,
          ((eager.performAll [.command ⟨"hall", "on", none⟩, .settle]).push
            [0xf7, 0x0e, 0x00, 0x00]).1.map StateChange.deviceId)) =
      some ([⟨"hall", "on", none⟩], ["hall"]) := by
    cbv
  obtain ⟨plain, hplain, hfacts⟩ := exists_of_toOption hrun
  obtain ⟨eager, heager, hfacts'⟩ := exists_of_toOption hrun'
  simp only [Prod.mk.injEq] at hfacts hfacts'
  obtain ⟨hok, honly, hlog⟩ := hfacts
  obtain ⟨honly', hheard⟩ := hfacts'
  refine ⟨plain, eager, hplain, heager, ?_⟩
  obtain ⟨hconfirmed, _, _⟩ := confirmation_of_twins hplain heager
  have hcompletes : ∀ gateway, CompletesAll offActs gateway :=
    fun _ => ⟨by rintro ⟨⟩, by rintro ⟨⟩, by rintro ⟨⟩, trivial⟩
  refine (hconfirmed [] ⟨"hall", "on", none⟩ offActs 0 rfl (hcompletes _) (hcompletes _) honly
    honly' ?_ hok).2 ⟨0, 1, ?_⟩
  · refine ⟨by rintro _ ⟨⟩, ?_, by rintro _ ⟨⟩, trivial⟩
    rintro _ ⟨⟩ _ _
    have hmem : "hall" ∈ ((eager.performAll [.command ⟨"hall", "on", none⟩, .settle]).push
        [0xf7, 0x0e, 0x00, 0x00]).1.map StateChange.deviceId := by
      rw [hheard]
      exact List.mem_cons_self
    obtain ⟨change, hchange, hid⟩ := List.mem_map.1 hmem
    exact .inl ⟨change, hchange, hid⟩
  · rw [List.nil_append, hlog]
    exact List.mem_cons_self

/-- The lamp is told to go on and then says that it is on. -/
def onActs : List Act := [.settle, .push [0xf7, 0x0e, 0x01, 0x00], .settle, .advance 100]

/-- The lamp says that it is on, as it counts already if that was taken to follow from the command.
Then nothing changes, and the command is not confirmed. -/
theorem unconfirmed_hall : ∃ plain eager,
    ofConfig ((hallConfig true).withOptimistic "hall" false) {} = .ok plain ∧
      ofConfig ((hallConfig true).withOptimistic "hall" true) {} = .ok eager ∧
      (plain.performAll (.command ⟨"hall", "on", none⟩ :: onActs)).queue.log =
        [.done 0 0 (.ok 1), .sent 0 0 [0xf7, 0x01], .taken 0 0] ∧
      (eager.performAll (.command ⟨"hall", "on", none⟩ :: onActs)).queue.log =
        [.done 100 0 (.error (.unconfirmed 1)), .sent 0 0 [0xf7, 0x01], .taken 0 0] := by
  have hrun : (ofConfig ((hallConfig true).withOptimistic "hall" false) {}).toOption.map
      (fun plain => (plain.performAll (.command ⟨"hall", "on", none⟩ :: onActs)).queue.log) =
      some [.done 0 0 (.ok 1), .sent 0 0 [0xf7, 0x01], .taken 0 0] := by
    cbv
  have hrun' : (ofConfig ((hallConfig true).withOptimistic "hall" true) {}).toOption.map
      (fun eager => (eager.performAll (.command ⟨"hall", "on", none⟩ :: onActs)).queue.log) =
      some [.done 100 0 (.error (.unconfirmed 1)), .sent 0 0 [0xf7, 0x01], .taken 0 0] := by
    cbv
  obtain ⟨plain, hplain, hdone⟩ := exists_of_toOption hrun
  obtain ⟨eager, heager, hfailed⟩ := exists_of_toOption hrun'
  exact ⟨plain, eager, hplain, heager, hdone, hfailed⟩

end PanelBus.Gateway
