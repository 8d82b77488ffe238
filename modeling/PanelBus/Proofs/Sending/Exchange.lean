import PanelBus.Sending.Outlet
import PanelBus.Proofs.Sending.Moves
/-!
# A queue among those around it

A queue, its bus and its way out, with all that others can do to them, in any order: publish events,
put commands in, raise the signal or let it go, take frames out.  Moves of the queue, the ends of
its turns and the time that passes come in the same order.  What happens is noted in a timeline.
-/

namespace PanelBus

/-- Something that happens around a queue. -/
inductive Happening where
  | published (event : Event)
  /-- A command was taken into its lane. -/
  | accepted (job : Job)
  | reported (report : Report)

namespace Happening

def event? : Happening → Option Event
  | .published event => some event
  | _ => none

end Happening

/-- The events published in a part of a timeline. -/
def publishedIn (timeline : List Happening) : List Event := timeline.filterMap Happening.event?

@[simp] theorem publishedIn_nil : publishedIn [] = [] := rfl

@[simp] theorem publishedIn_append (timeline more : List Happening) :
    publishedIn (timeline ++ more) = publishedIn timeline ++ publishedIn more :=
  List.filterMap_append

@[simp] theorem publishedIn_published (event : Event) :
    publishedIn [.published event] = [event] := rfl

@[simp] theorem publishedIn_map_published (events : List Event) :
    publishedIn (events.map .published) = events := by
  unfold publishedIn
  rw [List.filterMap_map]
  exact List.filterMap_some

@[simp] theorem publishedIn_cons_reported (report : Report) (timeline : List Happening) :
    publishedIn (.reported report :: timeline) = publishedIn timeline := rfl

@[simp] theorem publishedIn_cons_accepted (job : Job) (timeline : List Happening) :
    publishedIn (.accepted job :: timeline) = publishedIn timeline := rfl

@[simp] theorem publishedIn_reports (reports : List Report) :
    publishedIn (reports.map .reported) = [] := by
  induction reports with
  | nil => rfl
  | cons report rest ih => exact ih

/-- The frame that went out with a report. -/
def Report.frame? : Report → Option Bytes
  | .sent _ _ frame => some frame
  | _ => none

/-- Puts a frame in if it is taken; otherwise it is lost. -/
def Outlet.offer (outlet : Outlet) (frame : Bytes) : Outlet :=
  match outlet.write frame with
  | .ok outlet => outlet
  | .error _ => outlet

theorem CommandQueue.reportsAfter_of_log {queue next : CommandQueue} {reports : List Report}
    (h : next.log = reports ++ queue.log) :
    next.reportsAfter queue.log.length = reports.reverse := by
  unfold reportsAfter
  rw [h, List.length_append, Nat.add_sub_cancel, List.take_left]

structure Exchange where
  bus : EventBus
  queue : CommandQueue
  outlet : Outlet
  /-- The commands of senders that have not had their turn. -/
  coming : List Job := []
  /-- All that has happened, oldest first. -/
  timeline : List Happening := []

namespace Exchange

/-- What can happen next. -/
inductive Act where
  | publish (event : Event)
  /-- A holder of the queue puts a command in. -/
  | enqueue (request : SendRequest)
  /-- A holder sends for the result of a command; the sender holds the queue, too, until then. -/
  | send (request : SendRequest)
  /-- A sender gets its turn. -/
  | deliver (job : Job)
  | shutdown
  | share
  /-- Somebody lets the queue go who does not wait for a result. -/
  | release
  | move
  | endTurn
  | pass (ms : Nat)
  /-- A frame is taken out. -/
  | receive
  /-- Nobody takes frames out any more. -/
  | close

/-- A new queue on a bus on which some events were published before. -/
def start (capacity txDelay : Nat) (earlier : List Event) (outlet : Outlet) : Exchange :=
  let bus := (EventBus.ofCapacity capacity).publishAll earlier
  { bus, queue := .ofBus bus txDelay, outlet, timeline := earlier.map .published }

/-- The queue goes on.  Its reports are noted, and the frames that it sends go out. -/
def note (ex : Exchange) (next : CommandQueue) : Exchange :=
  let reports := next.reportsAfter ex.queue.log.length
  { ex with
    queue := next
    outlet := (reports.filterMap Report.frame?).foldl Outlet.offer ex.outlet
    timeline := ex.timeline ++ reports.map .reported }

/-- The holders that wait for a result or have just got it. -/
def engaged (ex : Exchange) : Nat := ex.coming.length + ex.queue.waiting

def step (ex : Exchange) : Act → Exchange
  | .publish event =>
    { ex with
      bus := ex.bus.publish event
      timeline := ex.timeline ++ [.published event] }
  | .enqueue request =>
    if ex.queue.signal.holders = 0 then ex
    else
      let request := { request with attached := false }
      match ex.queue.enqueue request with
      | (.ok ticket, queue) =>
        { ex with queue, timeline := ex.timeline ++ [.accepted ⟨ticket, request⟩] }
      | (.error _, _) => ex
  | .send request =>
    if ex.queue.signal.holders = 0 then ex
    else
      let (ticket, queue) := ex.queue.reserve
      { ex with
        queue := { queue with signal := queue.signal.share }
        coming := ex.coming ++ [⟨ticket, { request with attached := true }⟩] }
  | .deliver job =>
    if job ∈ ex.coming then
      let ex := { ex with coming := ex.coming.erase job }
      match ex.queue.refusal? with
      | some _ => ex.note (ex.queue.deliver job)
      | none =>
        { ex with
          queue := ex.queue.deliver job
          timeline := ex.timeline ++ [.accepted job] }
    else ex
  | .shutdown =>
    if ex.queue.signal.holders = 0 then ex else { ex with queue := ex.queue.shutdown }
  | .share =>
    if ex.queue.signal.holders = 0 then ex
    else { ex with queue := { ex.queue with signal := ex.queue.signal.share } }
  | .release =>
    if ex.engaged < ex.queue.signal.holders then
      { ex with queue := { ex.queue with signal := ex.queue.signal.release 1 } }
    else ex
  | .move =>
    match ex.queue.move? ex.bus with
    | some next => ex.note next
    | none => ex
  | .endTurn => { ex with queue := ex.queue.endTurn }
  | .pass ms => { ex with queue := { ex.queue with now := ex.queue.now + ms } }
  | .receive => { ex with outlet := ex.outlet.receive.2 }
  | .close => { ex with outlet := ex.outlet.close }

def run (ex : Exchange) (acts : List Act) : Exchange := acts.foldl step ex

theorem run_append (ex : Exchange) (acts more : List Act) :
    ex.run (acts ++ more) = (ex.run acts).run more := List.foldl_append

/-! ## What is noted -/

variable {ex : Exchange} {next : CommandQueue} {reports : List Report}

theorem timeline_note (h : next.log = reports ++ ex.queue.log) :
    (ex.note next).timeline = ex.timeline ++ reports.reverse.map .reported := by
  unfold note
  rw [CommandQueue.reportsAfter_of_log h]

theorem timeline_note_nil (h : next.log = ex.queue.log) :
    (ex.note next).timeline = ex.timeline := by
  have hlog : next.log = [] ++ ex.queue.log := h
  rw [timeline_note hlog]
  exact List.append_nil _

theorem timeline_note_cons {report : Report} (h : next.log = report :: ex.queue.log) :
    (ex.note next).timeline = ex.timeline ++ [.reported report] := by
  have hlog : next.log = [report] ++ ex.queue.log := h
  rw [timeline_note hlog]
  rfl

/-- Going on twice is going on once, when nothing that was reported is taken back. -/
theorem note_note {middle : CommandQueue} {more : List Report}
    (hmiddle : middle.log = reports ++ ex.queue.log) (hnext : next.log = more ++ middle.log) :
    (ex.note middle).note next = ex.note next := by
  have hboth : next.log = (more ++ reports) ++ ex.queue.log := by
    rw [hnext, hmiddle, List.append_assoc]
  unfold note
  dsimp only
  rw [CommandQueue.reportsAfter_of_log hmiddle, CommandQueue.reportsAfter_of_log hnext,
    CommandQueue.reportsAfter_of_log hboth]
  simp only [List.reverse_append, List.filterMap_append, List.foldl_append, List.map_append,
    List.append_assoc]

/-! ## What an act comes to -/

/-- Commands, events and what is known of them stay as they are; a signal that fires goes on
firing, and time does not go back. -/
structure Quiet (ex next : Exchange) : Prop where
  bus : next.bus = ex.bus
  coming : next.coming = ex.coming
  timeline : next.timeline = ex.timeline
  phase : next.queue.phase = ex.queue.phase
  lanes : next.queue.high = ex.queue.high ∧ next.queue.low = ex.queue.low
  watcher : next.queue.watcher = ex.queue.watcher
  issued : next.queue.issued = ex.queue.issued
  log : next.queue.log = ex.queue.log
  raisings : ex.queue.signal.raisings ≤ next.queue.signal.raisings
  holders : ex.queue.signal.holders = 0 → next.queue.signal.holders = 0
  now : ex.queue.now ≤ next.queue.now
  pace : next.queue.txDelay = ex.queue.txDelay ∧ next.queue.lastTx? = ex.queue.lastTx?

theorem Quiet.refl (ex : Exchange) : Quiet ex ex :=
  ⟨rfl, rfl, rfl, rfl, ⟨rfl, rfl⟩, rfl, rfl, rfl, Nat.le_refl _, id, Nat.le_refl _, ⟨rfl, rfl⟩⟩

/-- All that an act can come to. -/
inductive Effect (ex : Exchange) : Exchange → Prop where
  | quiet {next : Exchange} (h : Quiet ex next) : Effect ex next
  | publish (event : Event) :
      Effect ex { ex with
        bus := ex.bus.publish event
        timeline := ex.timeline ++ [.published event] }
  /-- A holder's command with a new ticket, or one that was coming, is taken into its lane. -/
  | accept {job : Job} {issued : Nat} {coming : List Job} (hopen : ex.queue.refusal? = none)
      (hcame : (ex.queue.signal.holders ≠ 0 ∧
          job.ticket = ex.queue.issued ∧ issued = ex.queue.issued + 1 ∧ coming = ex.coming) ∨
        (job ∈ ex.coming ∧ issued = ex.queue.issued ∧ coming = ex.coming.erase job)) :
      Effect ex { ex with
        queue := { ex.queue with issued }.append job
        coming
        timeline := ex.timeline ++ [.accepted job] }
  | send (request : SendRequest) (hheld : ex.queue.signal.holders ≠ 0) :
      Effect ex { ex with
        queue := { ex.queue with
          issued := ex.queue.issued + 1
          signal := ex.queue.signal.share }
        coming := ex.coming ++ [⟨ex.queue.issued, request⟩] }
  | refuse {job : Job} {error : CommandError} (hcoming : job ∈ ex.coming)
      (hrefusal : ex.queue.refusal? = some error) :
      Effect ex { ex.note (ex.queue.conclude job (.error error)) with
        coming := ex.coming.erase job }
  | move {next : CommandQueue} (hmove : ex.queue.move? ex.bus = some next) :
      Effect ex (ex.note next)

/-- What only holders do comes to nothing when there are none. -/
theorem Effect.of_held {next : Exchange} (h : ex.queue.signal.holders ≠ 0 → ex.Effect next) :
    ex.Effect (if ex.queue.signal.holders = 0 then ex else next) := by
  split
  · exact .quiet (Quiet.refl ex)
  · next hheld => exact h hheld

/-- Most acts change nothing but the signal, the way out, the time, or what is counted in a turn. -/
theorem Effect.aside {next : Exchange}
    (hraisings : ex.queue.signal.raisings ≤ next.queue.signal.raisings)
    (hholders : ex.queue.signal.holders = 0 → next.queue.signal.holders = 0)
    (hnow : ex.queue.now ≤ next.queue.now)
    (h : next = { ex with
      outlet := next.outlet
      queue := { ex.queue with
        signal := next.queue.signal
        now := next.queue.now
        leaving := next.queue.leaving
        heedsHigh := next.queue.heedsHigh
        heedsLow := next.queue.heedsLow
        called := next.queue.called
        spent := next.queue.spent } }) : ex.Effect next := by
  refine .quiet ⟨?_, ?_, ?_, ?_, ⟨?_, ?_⟩, ?_, ?_, ?_, hraisings, hholders, hnow, ?_, ?_⟩ <;> rw [h]

theorem step_enqueue (request : SendRequest) : ex.Effect (ex.step (.enqueue request)) := by
  refine .of_held fun hheld => ?_
  cases hrefusal : ex.queue.refusal? with
  | some error =>
      simp only [CommandQueue.enqueue, hrefusal]
      exact .quiet (Quiet.refl ex)
  | none =>
      simp only [CommandQueue.enqueue, hrefusal, CommandQueue.reserve]
      exact .accept hrefusal (.inl ⟨hheld, rfl, rfl, rfl⟩)

theorem step_deliver (job : Job) : ex.Effect (ex.step (.deliver job)) := by
  by_cases hcoming : job ∈ ex.coming
  · cases hrefusal : ex.queue.refusal? with
    | some error =>
        simp only [step, hcoming, if_true, CommandQueue.deliver, hrefusal]
        exact .refuse hcoming hrefusal
    | none =>
        simp only [step, hcoming, if_true, CommandQueue.deliver, hrefusal]
        exact .accept hrefusal (.inr ⟨hcoming, rfl, rfl⟩)
  · simp only [step, hcoming, if_false]
    exact .quiet (Quiet.refl ex)

theorem step_move : ex.Effect (ex.step .move) := by
  cases hmove : ex.queue.move? ex.bus with
  | some next =>
      simp only [step, hmove]
      exact .move hmove
  | none =>
      simp only [step, hmove]
      exact .quiet (Quiet.refl ex)

theorem step_effect (ex : Exchange) (act : Act) : ex.Effect (ex.step act) := by
  cases act with
  | publish event => exact .publish event
  | enqueue request => exact step_enqueue request
  | send request => exact .of_held fun hheld => .send _ hheld
  | deliver job => exact step_deliver job
  | shutdown => exact .of_held fun _ => .aside (Nat.le_succ _) (fun h => h) (Nat.le_refl _) rfl
  | share =>
      exact .of_held fun hheld =>
        .aside (Nat.le_refl _) (fun h => absurd h hheld) (Nat.le_refl _) rfl
  | release =>
      by_cases hfree : ex.engaged < ex.queue.signal.holders
      · simp only [step, hfree, if_true]
        exact .aside (Nat.le_refl _) (fun h => by simp [StopSignal.release, h]) (Nat.le_refl _) rfl
      · simp only [step, hfree, if_false]
        exact .quiet (Quiet.refl ex)
  | move => exact step_move
  | endTurn =>
      exact .aside (Nat.le_refl _)
        (fun h => by simp [step, CommandQueue.endTurn, StopSignal.release, h]) (Nat.le_refl _) rfl
  | pass ms => exact .aside (Nat.le_refl _) (fun h => h) (Nat.le_add_right _ _) rfl
  | receive => exact .aside (Nat.le_refl _) (fun h => h) (Nat.le_refl _) rfl
  | close => exact .aside (Nat.le_refl _) (fun h => h) (Nat.le_refl _) rfl

/-- What quiet acts and moves of the queue keep, a move in its turn keeps: it may consist of two. -/
theorem note_of_move? {P : Exchange → Prop}
    (hquiet : ∀ ex next, P ex → Quiet ex next → P next)
    (hmove : ∀ ex next, P ex → CommandQueue.Move ex.bus ex.queue next → P (ex.note next))
    (h : P ex) (hnext : ex.queue.move? ex.bus = some next) : P (ex.note next) := by
  obtain ⟨_, moved, hmoved, rfl⟩ := CommandQueue.exists_of_move? hnext
  have hnote : P (ex.note moved) := by
    -- A command that need not wait is picked and sent at once; both reports are noted together.
    rcases CommandQueue.moves_of_proceed? hmoved with hone | ⟨middle, _, _, hone, htwo⟩
    · exact hmove ex moved h hone
    · have hmiddle := hmove ex middle h hone
      obtain ⟨reports, hreports⟩ := hone.exists_log
      obtain ⟨more, hmore⟩ := htwo.exists_log
      rw [← note_note hreports hmore]
      exact hmove (ex.note middle) moved hmiddle htwo
  exact hquiet (ex.note moved) _ hnote
    ⟨rfl, rfl, rfl, rfl, ⟨rfl, rfl⟩, rfl, rfl, rfl, Nat.le_refl _, id, Nat.le_refl _, ⟨rfl, rfl⟩⟩

/-- What every act keeps holds after every run. -/
theorem run_of {P : Exchange → Prop} (hstep : ∀ ex act, P ex → P (ex.step act)) (ex : Exchange)
    (h : P ex) (acts : List Act) : P (ex.run acts) := by
  induction acts generalizing ex with
  | nil => exact h
  | cons act rest ih => exact ih (ex.step act) (hstep ex act h)

theorem timeline_prefix_of_effect {next : Exchange} (heffect : ex.Effect next) :
    ex.timeline <+: next.timeline := by
  cases heffect with
  | quiet hquiet => exact ⟨[], by rw [hquiet.timeline, List.append_nil]⟩
  | publish event => exact List.prefix_append _ _
  | accept hopen hcame => exact List.prefix_append _ _
  | send request hheld => exact List.prefix_refl _
  | refuse hcoming hrefusal => exact List.prefix_append _ _
  | move hmove => exact List.prefix_append _ _

/-- What was noted stays noted. -/
theorem timeline_prefix_run (ex : Exchange) (acts : List Act) :
    ex.timeline <+: (ex.run acts).timeline := by
  induction acts generalizing ex with
  | nil => exact List.prefix_refl _
  | cons act rest ih =>
      exact (timeline_prefix_of_effect (ex.step_effect act)).trans (ih (ex.step act))

end Exchange

end PanelBus
