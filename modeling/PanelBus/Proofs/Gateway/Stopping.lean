import Mathlib
import PanelBus.Proofs.Gateway.Task
/-!
# Running gateways and the signal to stop

A running gateway begins to look for the signal to stop in its first turn.  When the signal is
raised after that, the gateway takes no octets and no requests any more and ends with its next turn.
Of a signal that was raised before it never learns.
-/

namespace PanelBus

/-! ## What leaves the signal alone -/

namespace CommandQueue

variable {bus : EventBus} {queue next : CommandQueue}

/-- From the one to the other the signal was not raised and no ticket given out. -/
structure Steady (queue next : CommandQueue) : Prop where
  raisings : next.signal.raisings = queue.signal.raisings
  issued : next.issued = queue.issued

theorem Move.issued_eq (h : Move bus queue next) : next.issued = queue.issued := by
  cases h with
  | stop _ _ => rw [stop_eq]
  | _ => rfl

theorem Steady.move {middle : CommandQueue} (h : Steady queue middle)
    (hmove : Move bus middle next) : Steady queue next where
  raisings := by
    rw [hmove.signal_eq.1]
    exact h.raisings
  issued := hmove.issued_eq.trans h.issued

theorem steady_turn (queue : CommandQueue) (bus : EventBus) :
    Steady queue (queue.turn bus).endTurn := by
  have hturn : Steady queue (queue.turn bus) :=
    turn_of (P := Steady queue) (fun _ _ h hmove => h.move hmove) (fun _ _ h => ⟨h.1, h.2⟩)
      ⟨rfl, rfl⟩
  exact ⟨hturn.raisings, hturn.issued⟩

theorem steady_advance (queue : CommandQueue) (bus : EventBus) (ms : Nat) :
    Steady queue (queue.advance bus ms) := by
  have hrun : Steady queue (queue.runUntil bus (queue.now + ms)) :=
    runUntil_of (P := Steady queue) (fun _ _ h hmove => h.move hmove) (fun _ _ h => ⟨h.1, h.2⟩)
      (fun _ h => ⟨h.1, h.2⟩) (fun _ _ h _ => ⟨h.1, h.2⟩) ⟨rfl, rfl⟩
  exact ⟨hrun.raisings, hrun.issued⟩

theorem signal_enqueue (queue : CommandQueue) (request : SendRequest) :
    (queue.enqueue request).2.signal = queue.signal := by
  unfold enqueue
  split
  · rfl
  · exact signal_append _ _

end CommandQueue

namespace Gateway

theorem signal_dispatch (gateway : Gateway) (frame : Bytes) :
    (gateway.dispatch frame).2.queue.signal = gateway.queue.signal := by
  unfold dispatch
  split
  split <;> rfl

theorem signal_dispatchAll (gateway : Gateway) (frames : List Bytes) :
    (gateway.dispatchAll frames).2.queue.signal = gateway.queue.signal := by
  induction frames generalizing gateway with
  | nil => rfl
  | cons frame rest ih => exact (ih _).trans (gateway.signal_dispatch frame)

theorem signal_submit (gateway : Gateway) (command : DeviceCommand) :
    (gateway.submit command).2.queue.signal = gateway.queue.signal := by
  rcases gateway.submit_cases command with ⟨_, _, _, _, hqueue⟩ | ⟨request, _, _, _, henqueue⟩
  · rw [hqueue]
  · have hsignal := gateway.queue.signal_enqueue request
    rwa [henqueue] at hsignal

theorem signal_runIssued (n : Nat) (issued : List DeviceCommand) (gateway : Gateway) :
    (runIssued n issued gateway).queue.signal = gateway.queue.signal := by
  induction n generalizing issued gateway with
  | zero => rfl
  | succ n ih =>
      cases issued with
      | nil => rfl
      | cons command rest => exact (ih _ _).trans (gateway.signal_submit command)

theorem signal_push (gateway : Gateway) (chunk : Bytes) :
    (gateway.push chunk).2.queue.signal = gateway.queue.signal :=
  (signal_runIssued _ _ _).trans (signal_dispatchAll _ _)

theorem signal_command (gateway : Gateway) (command : DeviceCommand) :
    (gateway.command command).2.queue.signal = gateway.queue.signal :=
  (signal_runIssued _ _ _).trans (gateway.signal_submit command)

end Gateway

namespace GatewayTask

variable {task next : GatewayTask}

/-! ## What goes on beside a gateway -/

/-- From the one to the other requests were refused, and no other answers given. -/
def Refuses (task next : GatewayTask) : Prop :=
  ∃ refused, next.answers = task.answers ++ refused ∧
    ∀ answer ∈ refused, answer.ticket = .error .closed

theorem Refuses.of_eq (h : next.answers = task.answers) : Refuses task next :=
  ⟨[], h.trans (List.append_nil _).symm, fun _ hnone => nomatch hnone⟩

theorem Refuses.trans {later : GatewayTask} (h : Refuses task next)
    (hlater : Refuses next later) : Refuses task later := by
  obtain ⟨refused, hanswers, hrefused⟩ := h
  obtain ⟨more, hmore, hclosed⟩ := hlater
  refine ⟨refused ++ more, by rw [hmore, hanswers, List.append_assoc], ?_⟩
  intro answer hanswer
  exact (List.mem_append.1 hanswer).elim (hrefused answer) (hclosed answer)

/-- The gateway is not concerned: others wait, come or are refused. -/
structure Aside (task next : GatewayTask) : Prop where
  gateway : next.gateway = task.gateway
  sight : next.sight? = task.sight?
  ended : next.ended = task.ended
  isOpen : next.isOpen = task.isOpen
  answers : Refuses task next

theorem Aside.trans {later : GatewayTask} (h : Aside task next) (hlater : Aside next later) :
    Aside task later :=
  ⟨hlater.gateway.trans h.gateway, hlater.sight.trans h.sight, hlater.ended.trans h.ended,
    hlater.isOpen.trans h.isOpen, h.answers.trans hlater.answers⟩

theorem aside_refl (task : GatewayTask) : Aside task task := ⟨rfl, rfl, rfl, rfl, .of_eq rfl⟩

theorem aside_foldl {α : Type} {f : GatewayTask → α → GatewayTask}
    (hf : ∀ task a, Aside task (f task a)) (items : List α) (task : GatewayTask) :
    Aside task (items.foldl f task) := by
  induction items generalizing task with
  | nil => exact aside_refl task
  | cons a rest ih => exact (hf task a).trans (ih _)

theorem aside_wake (task : GatewayTask) : Aside task task.wake := by
  unfold wake
  split
  · exact aside_refl task
  · exact ⟨rfl, rfl, rfl, rfl, .of_eq rfl⟩

theorem aside_wakeQueue (task : GatewayTask) : Aside task task.wakeQueue := by
  unfold wakeQueue
  dsimp only
  split
  · exact ⟨rfl, rfl, rfl, rfl, .of_eq rfl⟩
  · exact aside_refl task

theorem aside_refused (task : GatewayTask) (request : GatewayRequest) :
    Aside task (task.answer request (.error .closed)) := by
  refine ⟨rfl, rfl, rfl, rfl, _, rfl, ?_⟩
  intro answer hanswer
  rw [List.mem_singleton.1 hanswer]

theorem aside_enter (task : GatewayTask) (request : GatewayRequest) :
    Aside task (task.enter request) := by
  unfold enter
  split
  · exact aside_refused task request
  · have hput : Aside task { task with requests := task.requests ++ [request] } :=
      ⟨rfl, rfl, rfl, rfl, .of_eq rfl⟩
    exact hput.trans (aside_wake _)

theorem aside_call (task : GatewayTask) (request : GatewayRequest) :
    Aside task (task.call request) := by
  unfold call
  split
  · exact aside_refused task request
  · split
    · exact ⟨rfl, rfl, rfl, rfl, .of_eq rfl⟩
    · next room _ =>
      have hroom : Aside task { task with room } := ⟨rfl, rfl, rfl, rfl, .of_eq rfl⟩
      exact hroom.trans (aside_enter _ request)

theorem aside_tell (task : GatewayTask) (ticket? : Option Nat) : Aside task (task.tell ticket?) :=
  ⟨rfl, rfl, rfl, rfl, .of_eq rfl⟩

theorem aside_tellSince (task : GatewayTask) (first : Nat) : Aside task (task.tellSince first) :=
  aside_foldl (f := fun task ticket => task.tell (some ticket))
    (fun task ticket => aside_tell task (some ticket)) _ task

theorem aside_refuse (task : GatewayTask) (request : GatewayRequest) :
    Aside task (task.refuse request) :=
  (aside_refused task request).trans (aside_tell _ none)

theorem aside_vacate (task : GatewayTask) : Aside task task.vacate := by
  unfold vacate
  split
  · exact ⟨rfl, rfl, rfl, rfl, .of_eq rfl⟩
  · exact ⟨rfl, rfl, rfl, rfl, .of_eq rfl⟩

theorem aside_offer (task : GatewayTask) (chunk : Bytes) : Aside task (task.offer chunk).2 := by
  unfold offer
  dsimp only
  split
  · exact aside_refl task
  · have hput : Aside task { task with chunks := task.chunks ++ [chunk] } :=
      ⟨rfl, rfl, rfl, rfl, .of_eq rfl⟩
    exact hput.trans (aside_wake _)

/-- When a gateway ends, those who wait are refused. -/
theorem aside_finish (task : GatewayTask) :
    Aside { task with ended := true } task.finish := by
  have hempty : Aside { task with ended := true }
      { task with chunks := [], requests := [], ended := true } :=
    ⟨rfl, rfl, rfl, rfl, .of_eq rfl⟩
  have hrefused := hempty.trans (aside_foldl aside_refuse task.requests _)
  exact ⟨hrefused.gateway, hrefused.sight, hrefused.ended, hrefused.isOpen, hrefused.answers⟩

theorem aside_stop (task : GatewayTask) :
    Aside { task with gateway := task.gateway.shutdown, ended := true } task.stop := by
  have hwake := aside_wakeQueue { task with gateway := task.gateway.shutdown }
  have hended : Aside { task with gateway := task.gateway.shutdown, ended := true }
      { ({ task with gateway := task.gateway.shutdown } : GatewayTask).wakeQueue with
        ended := true } :=
    ⟨hwake.gateway, hwake.sight, rfl, hwake.isOpen, hwake.answers⟩
  exact hended.trans (aside_finish _)

/-! ## What a gateway does in a turn -/

/-- The gateway takes octets and requests, and goes on. -/
structure Works (task next : GatewayTask) : Prop where
  sight : next.sight? = task.sight?
  ended : next.ended = task.ended
  isOpen : next.isOpen = task.isOpen
  signal : next.gateway.queue.signal = task.gateway.queue.signal

theorem works_refl (task : GatewayTask) : Works task task := ⟨rfl, rfl, rfl, rfl⟩

theorem Works.trans {later : GatewayTask} (h : Works task next) (hlater : Works next later) :
    Works task later :=
  ⟨hlater.sight.trans h.sight, hlater.ended.trans h.ended, hlater.isOpen.trans h.isOpen,
    hlater.signal.trans h.signal⟩

theorem Aside.works (h : Aside task next) : Works task next :=
  ⟨h.sight, h.ended, h.isOpen, congrArg (fun gateway => gateway.queue.signal) h.gateway⟩

theorem works_foldl {α : Type} {f : GatewayTask → α → GatewayTask}
    (hf : ∀ task a, Works task (f task a)) (items : List α) (task : GatewayTask) :
    Works task (items.foldl f task) := by
  induction items generalizing task with
  | nil => exact works_refl task
  | cons a rest ih => exact (hf task a).trans (ih _)

theorem works_receive (task : GatewayTask) (chunk : Bytes) : Works task (task.receive chunk) := by
  have hpush : Works task { task with gateway := (task.gateway.push chunk).2 } :=
    ⟨rfl, rfl, rfl, task.gateway.signal_push chunk⟩
  exact hpush.trans ((aside_wakeQueue _).trans (aside_tellSince _ _)).works

theorem works_answer (task : GatewayTask) (request : GatewayRequest)
    (ticket : Except CommandError Nat) : Works task (task.answer request ticket) :=
  ⟨rfl, rfl, rfl, rfl⟩

theorem works_handle (task : GatewayTask) (request : GatewayRequest) :
    Works task (task.handle request) := by
  have hcommand : Works task.vacate
      { task.vacate with gateway := (task.vacate.gateway.command request.command).2 } :=
    ⟨rfl, rfl, rfl, task.vacate.gateway.signal_command request.command⟩
  have htold := ((aside_vacate task).works.trans hcommand).trans
    ((aside_wakeQueue _).trans (aside_tellSince _ task.vacate.gateway.queue.issued)).works
  unfold handle
  dsimp only
  split
  · exact (htold.trans (works_answer _ _ _)).trans (aside_tell _ none).works
  · exact htold.trans (works_answer _ _ _)

theorem works_delay (task : GatewayTask) : Works task task.delay := ⟨rfl, rfl, rfl, rfl⟩

/-- The gateway has begun to look for the signal. -/
def look (task : GatewayTask) : GatewayTask :=
  { task with sight? := some (task.sight?.getD task.gateway.queue.signal.sight) }

/-- Whether the gateway learns of the signal when it looks for it. -/
def learns (task : GatewayTask) : Bool :=
  task.gateway.queue.signal.firesFor (task.sight?.getD task.gateway.queue.signal.sight)

/-- All that a turn of the gateway can come to. -/
inductive Turned (task : GatewayTask) : GatewayTask → Prop where
  | rest (hended : task.ended = true) : Turned task task
  | obey (hlive : task.ended = false) (hlearns : task.learns = true) : Turned task task.look.stop
  | breakDown {next : GatewayTask} (hlive : task.ended = false) (hlearns : task.learns = false)
      (hworks : Works task.look next) (hbroken : next.gateway.broken = true) :
      Turned task next.finish
  | runOut {next : GatewayTask} (hlive : task.ended = false) (hlearns : task.learns = false)
      (hworks : Works task.look next) (hclosed : task.isOpen = false) : Turned task next.stop
  | goOn {next : GatewayTask} (hlive : task.ended = false) (hlearns : task.learns = false)
      (hworks : Works task.look next) (hwhole : next.gateway.broken = false) : Turned task next

theorem turned_serve (hlive : task.ended = false) (hlearns : task.learns = false)
    (hworks : Works task.look next) (most : Nat) : Turned task (next.serve most) := by
  have hbefore : Works next { next with requests := next.requests.drop most } :=
    ⟨rfl, rfl, rfl, rfl⟩
  have hserved := (hworks.trans hbefore).trans
    (works_foldl works_handle (next.requests.take most) _)
  unfold serve
  dsimp only
  split
  · next hbroken => exact .breakDown hlive hlearns hserved hbroken
  · next hwhole =>
    rw [Bool.not_eq_true] at hwhole
    split
    · exact .goOn hlive hlearns (hserved.trans (works_delay _)) hwhole
    · exact .goOn hlive hlearns hserved hwhole

theorem turned_turn (task : GatewayTask) : Turned task task.turn := by
  unfold turn
  split
  · next hended => exact .rest hended
  next hended =>
  have hlive : task.ended = false := by simpa using hended
  dsimp only
  split
  · next hfires => exact .obey hlive hfires
  next hquiet =>
  have hlearns : task.learns = false := by simpa [learns] using hquiet
  have hbefore : Works task.look { task.look with chunks := task.chunks.drop turnLength } :=
    ⟨rfl, rfl, rfl, rfl⟩
  have hworks := hbefore.trans (works_foldl works_receive (task.chunks.take turnLength) _)
  split
  · next hbroken => exact .breakDown hlive hlearns hworks hbroken
  next hwhole =>
  rw [Bool.not_eq_true] at hwhole
  split
  · exact .goOn hlive hlearns (hworks.trans (works_delay _)) hwhole
  split
  · next hclosed =>
    refine .runOut hlive hlearns hworks ?_
    have hopen := hworks.isOpen
    rw [Bool.not_eq_true'] at hclosed
    exact hopen.symm.trans hclosed
  · exact turned_serve hlive hlearns hworks _

/-! ## Everything that can happen -/

/-- What can happen next around a running gateway. -/
inductive Act where
  | offer (chunk : Bytes)
  | closeChunks
  | request (request : GatewayRequest)
  | shutdown
  /-- Turns are waited for in another order. -/
  | arrange (turns : Agenda GatewayTurn)
  /-- Somebody has a turn. -/
  | turn (whose : GatewayTurn)
  | pass (ms : Nat)

def perform (task : GatewayTask) : Act → GatewayTask
  | .offer chunk => (task.offer chunk).2
  | .closeChunks => task.closeChunks
  | .request request => task.request request
  | .shutdown => task.shutdown
  | .arrange turns => { task with turns }
  | .turn whose => task.act whose
  | .pass ms => { task with gateway := task.gateway.advance ms }

def performAll (task : GatewayTask) (acts : List Act) : GatewayTask := acts.foldl perform task

theorem performAll_append (task : GatewayTask) (acts more : List Act) :
    task.performAll (acts ++ more) = (task.performAll acts).performAll more := List.foldl_append

theorem exists_performAll_run (task : GatewayTask) : ∃ acts, task.run = task.performAll acts := by
  fun_induction run task with
  | case1 task next hstep ih =>
      obtain ⟨acts, hacts⟩ := ih
      unfold step? at hstep
      split at hstep
      · next whose turns _ =>
        obtain rfl := Option.some.inj hstep
        exact ⟨.arrange turns :: .turn whose :: acts, hacts⟩
      · cases hstep
  | case2 task _ => exact ⟨[], rfl⟩

/-- Whatever is done around a running gateway, it comes about by such acts. -/
theorem exists_performAll {config : GatewayConfig} {budget : Expr.Budget}
    (h : Life config budget task) : ∃ gateway acts,
      Gateway.ofConfig config budget = .ok gateway ∧
        task = ({ gateway } : GatewayTask).performAll acts := by
  have hmore : ∀ {task : GatewayTask} (more : List Act), (∃ gateway acts,
      Gateway.ofConfig config budget = .ok gateway ∧
        task = ({ gateway } : GatewayTask).performAll acts) →
      ∃ gateway acts, Gateway.ofConfig config budget = .ok gateway ∧
        task.performAll more = ({ gateway } : GatewayTask).performAll acts := by
    rintro task more ⟨gateway, acts, hgateway, rfl⟩
    exact ⟨gateway, acts ++ more, hgateway, (performAll_append _ _ _).symm⟩
  have hsettle : ∀ task : GatewayTask, ∃ more, task.settle = task.performAll more := by
    intro task
    obtain ⟨more, hrun⟩ := exists_performAll_run { task with turns := task.turns.restart }
    exact ⟨.arrange task.turns.restart :: more, hrun⟩
  induction h with
  | @opened gateway hgateway => exact ⟨gateway, [], hgateway, rfl⟩
  | offer _ chunk ih => exact hmore [.offer chunk] ih
  | closeChunks _ ih => exact hmore [.closeChunks] ih
  | request _ request ih => exact hmore [.request request] ih
  | shutdown _ ih => exact hmore [.shutdown] ih
  | @settle task _ ih =>
      obtain ⟨more, hmoves⟩ := hsettle task
      rw [hmoves]
      exact hmore more ih
  | @advance task _ ms ih =>
      obtain ⟨more, hmoves⟩ := hsettle task
      have hafter := hmore [.pass ms] (hmore more ih)
      rw [← hmoves] at hafter
      exact hafter

/-! ## A gateway that learns of the signal -/

/-- Neither octets nor requests have come to the gateway: it is as it was but for its queue, which
was given nothing, and whoever has got an answer was refused. -/
structure Untouched (task next : GatewayTask) : Prop where
  gateway : next.gateway = { task.gateway with queue := next.gateway.queue }
  issued : next.gateway.queue.issued = task.gateway.queue.issued
  answers : Refuses task next

theorem Untouched.trans {later : GatewayTask} (h : Untouched task next)
    (hlater : Untouched next later) : Untouched task later where
  gateway := by rw [hlater.gateway, h.gateway]
  issued := hlater.issued.trans h.issued
  answers := h.answers.trans hlater.answers

theorem Aside.untouched (h : Aside task next) : Untouched task next where
  gateway := by rw [h.gateway]
  issued := by rw [h.gateway]
  answers := h.answers

/-- The gateway has ended, or the signal was raised since it looked for the first time. -/
def Knows (task : GatewayTask) : Prop :=
  task.ended = true ∨
    ∃ sight, task.sight? = some sight ∧ sight.raisings < task.gateway.queue.signal.raisings

theorem Knows.mono (h : task.Knows) (hsight : next.sight? = task.sight?)
    (hended : next.ended = task.ended)
    (hraisings : task.gateway.queue.signal.raisings ≤ next.gateway.queue.signal.raisings) :
    next.Knows := by
  unfold Knows
  rw [hended, hsight]
  refine h.imp_right ?_
  rintro ⟨sight, hsome, hless⟩
  exact ⟨sight, hsome, Nat.lt_of_lt_of_le hless hraisings⟩

theorem Aside.knows (h : Aside task next) (hknows : task.Knows) : next.Knows :=
  hknows.mono h.sight h.ended (Nat.le_of_eq (by rw [h.gateway]))

theorem Knows.turned (hknows : task.Knows) (hturned : Turned task next) :
    Untouched task next ∧ next.ended = true := by
  have hlearns : task.ended = false → task.learns = true := by
    intro hlive
    obtain ⟨sight, hsight, hless⟩ := hknows.resolve_left (by simp [hlive])
    have hne : task.gateway.queue.signal.raisings ≠ sight.raisings := by omega
    simp [learns, hsight, StopSignal.firesFor, hne]
  cases hturned with
  | rest hended => exact ⟨(aside_refl task).untouched, hended⟩
  | obey _ _ =>
      have hstop := aside_stop task.look
      have hshut : Untouched task
          { task.look with gateway := task.gateway.shutdown, ended := true } :=
        ⟨rfl, rfl, .of_eq rfl⟩
      exact ⟨hshut.trans hstop.untouched, hstop.ended⟩
  | breakDown hlive hquiet _ _ | runOut hlive hquiet _ _ | goOn hlive hquiet _ _ =>
      rw [hlearns hlive] at hquiet
      cases hquiet

theorem Knows.perform (h : task.Knows) (act : Act) :
    Untouched task (task.perform act) ∧ (task.perform act).Knows := by
  have haside : ∀ {next : GatewayTask}, Aside task next → Untouched task next ∧ next.Knows :=
    fun hnext => ⟨hnext.untouched, hnext.knows h⟩
  cases act with
  | offer chunk => exact haside (aside_offer task chunk)
  | closeChunks =>
      have hclosed : Untouched task { task with isOpen := false } := ⟨rfl, rfl, .of_eq rfl⟩
      have hwake := aside_wake { task with isOpen := false }
      exact ⟨hclosed.trans hwake.untouched, hwake.knows h⟩
  | request request => exact haside ⟨rfl, rfl, rfl, rfl, .of_eq rfl⟩
  | shutdown =>
      have hraised : Untouched task { task with gateway := task.gateway.shutdown } :=
        ⟨rfl, rfl, .of_eq rfl⟩
      have hwake := (aside_wakeQueue { task with gateway := task.gateway.shutdown }).trans
        (aside_wake _)
      exact ⟨hraised.trans hwake.untouched, hwake.knows (h.mono rfl rfl (Nat.le_succ _))⟩
  | arrange turns => exact haside ⟨rfl, rfl, rfl, rfl, .of_eq rfl⟩
  | pass ms =>
      have hsteady := task.gateway.queue.steady_advance task.gateway.bus ms
      exact ⟨⟨rfl, hsteady.issued, .of_eq rfl⟩,
        h.mono rfl rfl (Nat.le_of_eq hsteady.raisings.symm)⟩
  | turn whose =>
      cases whose with
      | gateway =>
          obtain ⟨huntouched, hended⟩ := h.turned (turned_turn task)
          exact ⟨huntouched, .inl hended⟩
      | queue =>
          have hsteady := task.gateway.queue.steady_turn task.gateway.bus
          exact ⟨⟨rfl, hsteady.issued, .of_eq rfl⟩,
            h.mono rfl rfl (Nat.le_of_eq hsteady.raisings.symm)⟩
      | caller request => exact haside (aside_call task request)
      | admitted request => exact haside (aside_enter task request)
      | listener ticket? => exact haside (aside_refl task)

theorem Knows.performAll (h : task.Knows) (acts : List Act) :
    Untouched task (task.performAll acts) ∧ (task.performAll acts).Knows := by
  induction acts generalizing task with
  | nil => exact ⟨(aside_refl task).untouched, h⟩
  | cons act rest ih =>
      obtain ⟨hfirst, hknows⟩ := h.perform act
      obtain ⟨hrest, hlast⟩ := ih hknows
      exact ⟨hfirst.trans hrest, hlast⟩

/-- Whatever happens, neither octets nor requests come to the gateway any more, and with its next
turn it has ended. -/
def Obeys (task : GatewayTask) : Prop :=
  ∀ acts, Untouched task (task.performAll acts) ∧ (task.performAll acts).turn.ended = true

theorem Knows.obeys (h : task.Knows) : task.Obeys := by
  intro acts
  obtain ⟨huntouched, hknows⟩ := h.performAll acts
  exact ⟨huntouched, (hknows.turned (turned_turn _)).2⟩

/-! ## When a gateway learns of the signal -/

/-- The signal is raised when the gateway has had a turn. -/
def RaisedLater (acts : List Act) : Prop :=
  ∃ first rest, acts = first ++ .shutdown :: rest ∧ .turn .gateway ∈ first

theorem RaisedLater.turn_mem {acts : List Act} (h : RaisedLater acts) :
    .turn .gateway ∈ acts := by
  obtain ⟨first, rest, rfl, hturn⟩ := h
  exact List.mem_append_left _ hturn

theorem raisedLater_concat (acts : List Act) (act : Act) :
    RaisedLater (acts ++ [act]) ↔
      RaisedLater acts ∨ act = .shutdown ∧ .turn .gateway ∈ acts := by
  constructor
  · rintro ⟨first, rest, hacts, hturn⟩
    rcases List.eq_nil_or_concat rest with rfl | ⟨init, last, rfl⟩
    · obtain ⟨rfl, hact⟩ := List.append_inj' hacts rfl
      exact .inr ⟨(List.cons.inj hact).1, hturn⟩
    · rw [List.concat_eq_append, ← List.cons_append, ← List.append_assoc] at hacts
      exact .inl ⟨first, init, (List.append_inj' hacts rfl).1, hturn⟩
  · rintro (⟨first, rest, rfl, hturn⟩ | ⟨rfl, hturn⟩)
    · exact ⟨first, rest ++ [act], by simp, hturn⟩
    · exact ⟨acts, [], rfl, hturn⟩

/-- What a gateway that has not ended knows of the signal after these acts. -/
structure Watches (acts : List Act) (task : GatewayTask) : Prop where
  whole : task.gateway.broken = false
  unseen : task.sight? = none → .turn .gateway ∉ acts
  seen : ∀ sight, task.sight? = some sight → .turn .gateway ∈ acts ∧
    sight.raisings ≤ task.gateway.queue.signal.raisings ∧
      (sight.raisings < task.gateway.queue.signal.raisings ↔ RaisedLater acts)

variable {acts : List Act} {act : Act}

/-- Nothing happens to the signal, and the gateway does not look. -/
theorem Watches.keep (h : Watches acts task) (hact : act ≠ .shutdown ∧ act ≠ .turn .gateway)
    (hsight : next.sight? = task.sight?)
    (hraisings : next.gateway.queue.signal.raisings = task.gateway.queue.signal.raisings)
    (hsession : next.gateway.session = task.gateway.session) : Watches (acts ++ [act]) next := by
  have hturn : .turn .gateway ∈ acts ++ [act] ↔ .turn .gateway ∈ acts := by
    simp [hact.2.symm]
  have hlater : RaisedLater (acts ++ [act]) ↔ RaisedLater acts := by
    rw [raisedLater_concat]
    simp [hact.1]
  refine ⟨?_, ?_, ?_⟩
  · unfold Gateway.broken
    rw [hsession]
    exact h.whole
  · rw [hsight, hturn]
    exact h.unseen
  · rw [hsight, hraisings, hturn, hlater]
    exact h.seen

theorem Watches.aside (h : Watches acts task) (hact : act ≠ .shutdown ∧ act ≠ .turn .gateway)
    (haside : Aside task next) : Watches (acts ++ [act]) next :=
  h.keep hact haside.sight (by rw [haside.gateway]) (by rw [haside.gateway])

theorem Watches.shutdown (h : Watches acts task) :
    Watches (acts ++ [.shutdown]) task.shutdown := by
  have hwake := (aside_wakeQueue { task with gateway := task.gateway.shutdown }).trans
    (aside_wake _)
  have hgateway : task.shutdown.gateway = task.gateway.shutdown := hwake.gateway
  have hsight : task.shutdown.sight? = task.sight? := hwake.sight
  have hturn : .turn .gateway ∈ acts ++ [.shutdown] ↔ .turn .gateway ∈ acts := by simp
  refine ⟨?_, ?_, ?_⟩
  · rw [hgateway]
    exact h.whole
  · rw [hsight, hturn]
    exact h.unseen
  · rw [hsight, hgateway, hturn, raisedLater_concat]
    intro sight hsome
    obtain ⟨hmem, hle, _⟩ := h.seen sight hsome
    have hless : sight.raisings < task.gateway.queue.signal.raisings + 1 := Nat.lt_succ_of_le hle
    exact ⟨hmem, Nat.le_of_lt hless, iff_of_true hless (.inr ⟨rfl, hmem⟩)⟩

theorem Watches.turned (h : Watches acts task) (hturned : Turned task next)
    (hlive : next.ended = false) : Watches (acts ++ [.turn .gateway]) next := by
  cases hturned with
  | rest hended =>
      rw [hended] at hlive
      cases hlive
  | obey _ _ =>
      rw [(aside_stop task.look).ended] at hlive
      cases hlive
  | @breakDown next _ _ _ _ =>
      rw [(aside_finish next).ended] at hlive
      cases hlive
  | @runOut next _ _ _ _ =>
      rw [(aside_stop next).ended] at hlive
      cases hlive
  | goOn _ hlearns hworks hwhole =>
      have hsignal : next.gateway.queue.signal = task.gateway.queue.signal := hworks.signal
      have hlater : RaisedLater (acts ++ [.turn .gateway]) ↔ RaisedLater acts := by
        rw [raisedLater_concat]
        simp
      refine ⟨hwhole, ?_, ?_⟩
      · rw [hworks.sight]
        exact fun hnone => nomatch hnone
      · rw [hworks.sight, hsignal, hlater]
        intro sight hsome
        obtain rfl := Option.some.inj hsome
        refine ⟨List.mem_append_right _ List.mem_cons_self, ?_⟩
        cases hbefore : task.sight? with
        | none =>
            refine ⟨Nat.le_refl _, iff_of_false (Nat.lt_irrefl _) ?_⟩
            intro hraised
            exact h.unseen hbefore hraised.turn_mem
        | some sight => exact (h.seen sight hbefore).2

theorem Turned.live (h : Turned task next) (hlive : next.ended = false) : task.ended = false := by
  cases h with
  | rest _ => exact hlive
  | obey hbefore _ | breakDown hbefore _ _ _ | runOut hbefore _ _ _ | goOn hbefore _ _ _ =>
      exact hbefore

theorem Watches.perform (h : task.ended = false → Watches acts task)
    (hlive : (task.perform act).ended = false) : Watches (acts ++ [act]) (task.perform act) := by
  have haside : Aside task (task.perform act) → act ≠ .shutdown ∧ act ≠ .turn .gateway →
      Watches (acts ++ [act]) (task.perform act) := by
    intro hnext hact
    exact (h (hnext.ended.symm.trans hlive)).aside hact hnext
  cases act with
  | offer chunk => exact haside (aside_offer task chunk) ⟨nofun, nofun⟩
  | closeChunks =>
      have hwake := aside_wake { task with isOpen := false }
      refine (h (hwake.ended.symm.trans hlive)).keep ⟨nofun, nofun⟩ hwake.sight ?_ ?_
      · exact congrArg (fun gateway => gateway.queue.signal.raisings) hwake.gateway
      · exact congrArg Gateway.session hwake.gateway
  | request request => exact haside ⟨rfl, rfl, rfl, rfl, .of_eq rfl⟩ ⟨nofun, nofun⟩
  | shutdown =>
      have hwake := (aside_wakeQueue { task with gateway := task.gateway.shutdown }).trans
        (aside_wake _)
      exact (h (hwake.ended.symm.trans hlive)).shutdown
  | arrange turns => exact haside ⟨rfl, rfl, rfl, rfl, .of_eq rfl⟩ ⟨nofun, nofun⟩
  | pass ms =>
      have hsteady := task.gateway.queue.steady_advance task.gateway.bus ms
      exact (h hlive).keep ⟨nofun, nofun⟩ rfl hsteady.raisings rfl
  | turn whose =>
      cases whose with
      | gateway =>
          have hturned := turned_turn task
          exact (h (hturned.live hlive)).turned hturned hlive
      | queue =>
          have hsteady := task.gateway.queue.steady_turn task.gateway.bus
          exact (h hlive).keep ⟨nofun, nofun⟩ rfl hsteady.raisings rfl
      | caller request => exact haside (aside_call task request) ⟨nofun, nofun⟩
      | admitted request => exact haside (aside_enter task request) ⟨nofun, nofun⟩
      | listener ticket? => exact haside (aside_refl task) ⟨nofun, nofun⟩

theorem watches_performAll {gateway : Gateway} (hwhole : gateway.broken = false)
    (acts : List Act) (hlive : (({ gateway } : GatewayTask).performAll acts).ended = false) :
    Watches acts (({ gateway } : GatewayTask).performAll acts) := by
  induction acts using List.reverseRecOn with
  | nil => exact ⟨hwhole, fun _ => List.not_mem_nil, fun _ hnone => nomatch hnone⟩
  | append_singleton acts act ih =>
      rw [performAll_append] at hlive ⊢
      exact Watches.perform ih hlive

section life

variable {config : GatewayConfig} {budget : Expr.Budget} {gateway : Gateway}

theorem Runs.perform (h : task.Runs config budget) (act : Act) :
    (task.perform act).Runs config budget := by
  cases act with
  | offer chunk => exact h.of_eq (aside_offer task chunk).gateway
  | closeChunks => exact h.of_eq (gateway_wake _)
  | request request => exact h
  | shutdown => exact h.shutdown
  | arrange turns => exact h
  | pass ms => exact Gateway.Life.advance h ms
  | turn whose =>
      cases whose with
      | gateway => exact h.turn
      | queue => exact h.turnQueue
      | caller request => exact h.of_eq (gateway_call _ request)
      | admitted request => exact h.of_eq (gateway_enter _ request)
      | listener ticket? => exact h

theorem Runs.performAll (h : task.Runs config budget) (acts : List Act) :
    (task.performAll acts).Runs config budget := by
  induction acts generalizing task with
  | nil => exact h
  | cons act rest ih => exact ih (h.perform act)

/-- A gateway that has not ended and could take octets does not end of itself. -/
theorem Watches.not_obeys (h : Watches acts task) (hruns : task.Runs config budget)
    (hlive : task.ended = false) (hopen : task.isOpen = true) (hearlier : ¬RaisedLater acts) :
    ¬task.Obeys := by
  intro hobeys
  have hended := (hobeys []).2
  have huntouched := (hobeys [.turn .gateway]).1
  change task.turn.ended = true at hended
  change Untouched task task.turn at huntouched
  have hturned := turned_turn task
  generalize task.turn = next at hended huntouched hturned
  cases hturned with
  | rest hbefore =>
      rw [hlive] at hbefore
      cases hbefore
  | obey _ hlearns =>
      have hheld := (Gateway.exists_run hruns).1.holders_ne_zero
      cases hsight : task.sight? with
      | none => simp [learns, hsight, StopSignal.firesFor, StopSignal.sight, hheld] at hlearns
      | some sight =>
          obtain ⟨_, hle, hraised⟩ := h.seen sight hsight
          simp only [learns, hsight, Option.getD_some, StopSignal.firesFor, hheld, decide_false,
            Bool.or_false, ne_eq, decide_not, Bool.not_eq_true', decide_eq_false_iff_not] at hlearns
          exact hearlier (hraised.1 (by omega))
  | @breakDown next _ _ _ hbroken =>
      have hgateway : next.finish.gateway.session = task.gateway.session := by
        rw [huntouched.gateway]
      rw [gateway_finish] at hgateway
      have hwhole := h.whole
      unfold Gateway.broken at hbroken hwhole
      rw [hgateway, hwhole] at hbroken
      cases hbroken
  | runOut _ _ _ hclosed =>
      rw [hopen] at hclosed
      cases hclosed
  | goOn _ _ hworks _ =>
      have hsame : next.ended = task.ended := hworks.ended
      rw [hsame, hlive] at hended
      cases hended

/-- As long as octets can come, a gateway obeys the signal to stop exactly when it has ended or the
signal is raised after its first turn. -/
theorem obeys_iff (h : Gateway.Life config budget gateway) (hwhole : gateway.broken = false)
    (acts : List Act) (hopen : (({ gateway } : GatewayTask).performAll acts).isOpen = true) :
    (({ gateway } : GatewayTask).performAll acts).Obeys ↔
      (({ gateway } : GatewayTask).performAll acts).ended = true ∨
        ∃ first rest, acts = first ++ .shutdown :: rest ∧ .turn .gateway ∈ first := by
  have hspawned : ({ gateway } : GatewayTask).Runs config budget := h
  have hruns := hspawned.performAll acts
  cases hended : (({ gateway } : GatewayTask).performAll acts).ended with
  | true => exact iff_of_true (Knows.obeys (.inl hended)) (.inl rfl)
  | false =>
      have hwatches := watches_performAll hwhole acts hended
      constructor
      · intro hobeys
        by_contra hneither
        exact hwatches.not_obeys hruns hended hopen (fun hraised => hneither (.inr hraised)) hobeys
      · intro hraised
        have hlater : RaisedLater acts := hraised.resolve_left Bool.false_ne_true
        cases hsight : (({ gateway } : GatewayTask).performAll acts).sight? with
        | none => exact absurd hlater.turn_mem (hwatches.unseen hsight)
        | some sight =>
            obtain ⟨_, _, hless⟩ := hwatches.seen sight hsight
            exact Knows.obeys (.inr ⟨sight, hsight, hless.2 hlater⟩)

end life

/-- A line without devices. -/
def bareConfig : GatewayConfig := { settings := { rxHeader := [0xf7], rxLength? := some 4 } }

theorem obeys_bare : ∃ gateway, Gateway.Life bareConfig {} gateway ∧ gateway.broken = false ∧
    (({ gateway } : GatewayTask).performAll [.turn .gateway, .shutdown]).isOpen = true ∧
      (({ gateway } : GatewayTask).performAll [.turn .gateway, .shutdown]).Obeys := by
  have hopened : (Gateway.ofConfig bareConfig {}).toOption.map (fun gateway =>
      (gateway.broken,
        (({ gateway } : GatewayTask).performAll [.turn .gateway, .shutdown]).isOpen)) =
      some (false, true) := by
    cbv
  obtain ⟨gateway, hgateway, hfacts⟩ := exists_of_toOption hopened
  obtain ⟨hwhole, hopen⟩ := Prod.mk.inj hfacts
  have hlife : Gateway.Life bareConfig {} gateway := .opened hgateway
  refine ⟨gateway, hlife, hwhole, hopen, (obeys_iff hlife hwhole _ hopen).2 (.inr ?_)⟩
  exact ⟨[.turn .gateway], [], rfl, List.mem_cons_self⟩

/-- The signal is raised before the first turn of a gateway.  In that turn the gateway receives an
octet and carries out a request, and it goes on. -/
theorem goes_on_after_shutdown : ∃ gateway, Gateway.ofConfig bareConfig {} = .ok gateway ∧
    let stopped := ({ gateway } : GatewayTask).performAll [.shutdown]
    let later := stopped.performAll
      [.offer [0xf7], .turn (.caller ⟨0, ⟨"hall", "on", none⟩⟩), .turn .gateway]
    stopped.gateway.assembler.pending = [] ∧ later.gateway.assembler.pending = [0xf7] ∧
      later.answers.map GatewayAnswer.ticket = [.error (.unknownDevice "hall")] ∧
      later.ended = false ∧ later.turn.ended = false := by
  have hopened : (Gateway.ofConfig bareConfig {}).toOption.map (fun gateway =>
      let stopped := ({ gateway } : GatewayTask).performAll [.shutdown]
      let later := stopped.performAll
        [.offer [0xf7], .turn (.caller ⟨0, ⟨"hall", "on", none⟩⟩), .turn .gateway]
      (stopped.gateway.assembler.pending, later.gateway.assembler.pending,
        later.answers.map GatewayAnswer.ticket, later.ended, later.turn.ended)) =
      some ([], [0xf7], [.error (.unknownDevice "hall")], false, false) := by
    cbv
  obtain ⟨gateway, hgateway, hfacts⟩ := exists_of_toOption hopened
  simp only [Prod.mk.injEq] at hfacts
  exact ⟨gateway, hgateway, hfacts⟩

end GatewayTask

end PanelBus
