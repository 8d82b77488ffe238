import PanelBus.Proofs.Sending.Moments
/-!
# The order of commands

The commands of a lane are taken up in the order in which they were accepted, each of them once, and
those of the other lane only when nothing waits in the lane that is emptied first.  The command at
hand is carried out to its end, whatever else is accepted meanwhile.
-/

namespace PanelBus

def Happening.acceptedFor? (lane : Priority) : Happening → Option Job
  | .accepted job => if job.request.priority = lane then some job else none
  | .published _ | .reported _ => none

/-- The commands that were accepted for a lane, first come first. -/
def acceptedIn (lane : Priority) (timeline : List Happening) : List Job :=
  timeline.filterMap (Happening.acceptedFor? lane)

/-- The command with that ticket was taken out of its lane. -/
def Taken (ticket : Nat) (timeline : List Happening) : Prop :=
  ∃ time, .reported (.taken time ticket) ∈ timeline

section acceptedIn

variable {lane : Priority} {timeline more : List Happening}

@[simp] theorem acceptedIn_append :
    acceptedIn lane (timeline ++ more) = acceptedIn lane timeline ++ acceptedIn lane more :=
  List.filterMap_append

@[simp] theorem acceptedIn_map_published (events : List Event) :
    acceptedIn lane (events.map .published) = [] := by
  induction events with
  | nil => rfl
  | cons event rest ih => exact ih

@[simp] theorem acceptedIn_map_reported (reports : List Report) :
    acceptedIn lane (reports.map .reported) = [] := by
  induction reports with
  | nil => rfl
  | cons report rest ih => exact ih

theorem acceptedIn_accepted (job : Job) :
    acceptedIn lane [.accepted job] = if job.request.priority = lane then [job] else [] := by
  by_cases hpriority : job.request.priority = lane <;>
    simp [acceptedIn, Happening.acceptedFor?, hpriority]

theorem priority_of_mem_acceptedIn {job : Job} (h : job ∈ acceptedIn lane timeline) :
    job.request.priority = lane := by
  obtain ⟨happening, _, hjob⟩ := List.mem_filterMap.1 h
  cases happening with
  | published event => cases hjob
  | reported report => cases hjob
  | accepted other =>
      simp only [Happening.acceptedFor?] at hjob
      split at hjob
      · next hpriority =>
        obtain rfl := Option.some.inj hjob
        exact hpriority
      · cases hjob

theorem Taken.mono {ticket : Nat} (h : Taken ticket timeline) (hmore : timeline <+: more) :
    Taken ticket more := by
  obtain ⟨time, hmem⟩ := h
  exact ⟨time, hmore.subset hmem⟩

end acceptedIn

namespace CommandQueue

variable {bus : EventBus} {queue next : CommandQueue}

theorem lane_append (queue : CommandQueue) (job : Job) (lane : Priority) :
    (queue.append job).lane lane =
      queue.lane lane ++ if job.request.priority = lane then [job] else [] := by
  unfold append
  cases hpriority : job.request.priority <;> cases lane <;> simp [CommandQueue.lane]

theorem mem_lanes {job : Job} {lane : Priority} (h : job ∈ queue.lane lane) :
    job ∈ queue.high ++ queue.low := by
  cases lane with
  | high => exact List.mem_append_left _ h
  | low => exact List.mem_append_right _ h

/-- One command leaves its lane, and no other one does. -/
structure Picks (queue next : CommandQueue) (lane : Priority) (job : Job) : Prop where
  first : queue.lane lane = job :: next.lane lane
  others : ∀ other, other ≠ lane → next.lane other = queue.lane other
  log : next.log = .taken queue.now job.ticket :: queue.log

theorem Move.picks_or_keeps (h : Move bus queue next) (hgoes : next.phase ≠ .ended) :
    (∃ lane job, Picks queue next lane job) ∨ ∀ lane, next.lane lane = queue.lane lane := by
  cases h with
  | stop _ _ =>
      rw [stop_eq] at hgoes
      exact absurd rfl hgoes
  | pickHigh _ _ hhigh =>
      refine .inl ⟨.high, _, hhigh, ?_, rfl⟩
      intro other hother
      cases other with
      | high => exact absurd rfl hother
      | low => rfl
  | pickLow _ _ _ hlow =>
      refine .inl ⟨.low, _, hlow, ?_, rfl⟩
      intro other hother
      cases other with
      | high => rfl
      | low => exact absurd rfl hother
  | transmit _ _ _ => exact .inr fun lane => by cases lane <;> rfl
  | ignore _ _ _ _ => exact .inr fun lane => by cases lane <;> rfl
  | confirm _ _ _ _ => exact .inr fun lane => by cases lane <;> rfl
  | giveUp _ _ _ _ _ => exact .inr fun lane => by cases lane <;> rfl
  | rest _ _ _ _ _ => exact .inr fun lane => by cases lane <;> rfl
  | rise _ _ _ => exact .inr fun lane => by cases lane <;> rfl

theorem Move.phase_ne_ended (h : Move bus queue next) : queue.phase ≠ .ended := by
  intro hended
  cases h with
  | stop _ hphase => exact hphase hended
  | pickHigh _ hphase _ | pickLow _ hphase _ _ | transmit _ hphase _ | ignore _ hphase _ _
  | confirm _ hphase _ _ | giveUp _ hphase _ _ _ | rest _ hphase _ _ _ | rise _ hphase _ =>
      rw [hphase] at hended
      cases hended

/-- The command at hand stays at hand, and the lanes grow at their ends only. -/
structure Stays (queue next : CommandQueue) : Prop where
  phase : next.phase = queue.phase
  lanes : ∀ lane, queue.lane lane <+: next.lane lane

theorem Stays.of_eq (hphase : next.phase = queue.phase)
    (hlanes : next.high = queue.high ∧ next.low = queue.low) : Stays queue next where
  phase := hphase
  lanes := by
    intro lane
    cases lane with
    | high => exact ⟨[], (List.append_nil _).trans hlanes.1.symm⟩
    | low => exact ⟨[], (List.append_nil _).trans hlanes.2.symm⟩

theorem Stays.trans {later : CommandQueue} (h : Stays queue next) (hlater : Stays next later) :
    Stays queue later :=
  ⟨hlater.phase.trans h.phase, fun lane => (h.lanes lane).trans (hlater.lanes lane)⟩

theorem stays_append (queue : CommandQueue) (job : Job) : Stays queue (queue.append job) where
  phase := queue.phase_append job
  lanes := by
    intro lane
    rw [lane_append]
    exact List.prefix_append _ _

end CommandQueue

namespace Exchange

variable {ex next : Exchange}

/-! ## Lanes are emptied from the front -/

/-- What was accepted for a lane and does not wait in it any more was taken up. -/
def Orderly (ex : Exchange) : Prop :=
  ex.queue.phase ≠ .ended → ∀ lane, ∃ gone,
    acceptedIn lane ex.timeline = gone ++ ex.queue.lane lane ∧
      ∀ job ∈ gone, Taken job.ticket ex.timeline

theorem Orderly.grow (h : ex.Orderly) {more : List Happening}
    (hphase : next.queue.phase ≠ .ended → ex.queue.phase ≠ .ended)
    (htimeline : next.timeline = ex.timeline ++ more)
    (hlanes : next.queue.phase ≠ .ended → ∀ lane,
      next.queue.lane lane = ex.queue.lane lane ++ acceptedIn lane more) : next.Orderly := by
  intro hgoes lane
  obtain ⟨gone, haccepted, htaken⟩ := h (hphase hgoes) lane
  refine ⟨gone, ?_, ?_⟩
  · rw [htimeline, acceptedIn_append, haccepted, hlanes hgoes, List.append_assoc]
  · intro job hjob
    exact (htaken job hjob).mono (htimeline ▸ List.prefix_append _ _)

theorem Orderly.pick (h : ex.Orderly) {queue : CommandQueue} {lane : Priority} {job : Job}
    (hgoes : ex.queue.phase ≠ .ended) (hpicks : CommandQueue.Picks ex.queue queue lane job) :
    (ex.note queue).Orderly := by
  intro _ other
  have htimeline := timeline_note_cons hpicks.log
  obtain ⟨gone, haccepted, htaken⟩ := h hgoes other
  have hgone : ∀ earlier ∈ gone, Taken earlier.ticket (ex.note queue).timeline := by
    intro earlier hearlier
    exact (htaken earlier hearlier).mono (htimeline ▸ List.prefix_append _ _)
  have hsame : acceptedIn other (ex.note queue).timeline = acceptedIn other ex.timeline := by
    rw [htimeline, acceptedIn_append]
    exact List.append_nil _
  by_cases hother : other = lane
  · subst hother
    refine ⟨gone ++ [job], ?_, ?_⟩
    · rw [hsame, haccepted, hpicks.first, List.append_assoc]
      rfl
    · intro earlier hearlier
      rcases List.mem_append.1 hearlier with hearlier | hearlier
      · exact hgone earlier hearlier
      · rw [List.mem_singleton.1 hearlier, htimeline]
        exact ⟨ex.queue.now, List.mem_append_right _ List.mem_cons_self⟩
  · refine ⟨gone, ?_, hgone⟩
    rw [hsame, haccepted]
    exact congrArg (gone ++ ·) (hpicks.others other hother).symm

theorem Orderly.move (h : ex.Orderly) {queue : CommandQueue}
    (hmove : CommandQueue.Move ex.bus ex.queue queue) : (ex.note queue).Orderly := by
  by_cases hended : queue.phase = .ended
  · intro hgoes
    exact absurd hended hgoes
  rcases hmove.picks_or_keeps hended with ⟨lane, job, hpicks⟩ | hkeeps
  · exact h.pick hmove.phase_ne_ended hpicks
  · obtain ⟨reports, hlog⟩ := hmove.exists_log
    refine h.grow (fun _ => hmove.phase_ne_ended) (timeline_note hlog) ?_
    intro _ lane
    rw [acceptedIn_map_reported, List.append_nil]
    exact hkeeps lane

theorem Orderly.quiet (h : ex.Orderly) (hquiet : Quiet ex next) : next.Orderly := by
  have htimeline : next.timeline = ex.timeline ++ [] := by
    rw [hquiet.timeline, List.append_nil]
  refine h.grow (fun hgoes => hquiet.phase ▸ hgoes) htimeline ?_
  intro _ lane
  cases lane with
  | high => exact hquiet.lanes.1.trans (List.append_nil _).symm
  | low => exact hquiet.lanes.2.trans (List.append_nil _).symm

theorem Orderly.effect (h : ex.Orderly) (heffect : ex.Effect next) : next.Orderly := by
  cases heffect with
  | quiet hquiet => exact h.quiet hquiet
  | publish event => exact h.grow id rfl fun _ _ => (List.append_nil _).symm
  | @accept job issued coming hopen hcame =>
      refine h.grow ?_ rfl ?_
      · intro hgoes
        rwa [CommandQueue.phase_append] at hgoes
      · intro _ lane
        rw [acceptedIn_accepted]
        exact CommandQueue.lane_append _ _ _
  | send request hheld =>
      exact h.grow id (List.append_nil _).symm fun _ _ => (List.append_nil _).symm
  | @refuse job error hcoming hrefusal =>
      have hlog : (ex.queue.conclude job (.error error)).log =
          .done ex.queue.now job.ticket (.error error) :: ex.queue.log := rfl
      exact h.grow id (timeline_note_cons hlog) fun _ _ => (List.append_nil _).symm
  | move hmove =>
      exact note_of_move? (P := Orderly) (fun ex next hex hquiet => hex.quiet hquiet)
        (fun ex next hex hmove => hex.move hmove) h hmove

theorem orderly_start (capacity txDelay : Nat) (earlier : List Event) (outlet : Outlet) :
    (start capacity txDelay earlier outlet).Orderly := by
  intro _ lane
  refine ⟨[], ?_, fun _ hnone => nomatch hnone⟩
  change acceptedIn lane (earlier.map .published) = _
  rw [acceptedIn_map_published]
  cases lane <;> rfl

/-! ## What others do -/

theorem stays_enqueue (request : SendRequest) :
    CommandQueue.Stays ex.queue (ex.step (.enqueue request)).queue := by
  simp only [step]
  split
  · exact .of_eq rfl ⟨rfl, rfl⟩
  · cases hrefusal : ex.queue.refusal? with
    | some error =>
        simp only [CommandQueue.enqueue, hrefusal]
        exact .of_eq rfl ⟨rfl, rfl⟩
    | none =>
        simp only [CommandQueue.enqueue, hrefusal, CommandQueue.reserve]
        have hissue : CommandQueue.Stays ex.queue
            { ex.queue with issued := ex.queue.issued + 1 } := .of_eq rfl ⟨rfl, rfl⟩
        exact hissue.trans (CommandQueue.stays_append _ _)

theorem stays_deliver (job : Job) :
    CommandQueue.Stays ex.queue (ex.step (.deliver job)).queue := by
  simp only [step]
  split
  · cases hrefusal : ex.queue.refusal? with
    | some error =>
        simp only [CommandQueue.deliver, hrefusal]
        exact .of_eq rfl ⟨rfl, rfl⟩
    | none =>
        simp only [CommandQueue.deliver, hrefusal]
        exact CommandQueue.stays_append _ _
  · exact .of_eq rfl ⟨rfl, rfl⟩

/-- Only its own moves change what a queue does. -/
theorem stays_step {act : Act} (hact : act ≠ .move) :
    CommandQueue.Stays ex.queue (ex.step act).queue := by
  cases act with
  | move => exact absurd rfl hact
  | enqueue request => exact stays_enqueue request
  | deliver job => exact stays_deliver job
  | send request | shutdown | share | release =>
      simp only [step]
      split <;> exact .of_eq rfl ⟨rfl, rfl⟩
  | publish event | endTurn | pass ms | receive | close => exact .of_eq rfl ⟨rfl, rfl⟩

theorem stays_run {acts : List Act} (hacts : .move ∉ acts) :
    CommandQueue.Stays ex.queue (ex.run acts).queue := by
  induction acts generalizing ex with
  | nil => exact .of_eq rfl ⟨rfl, rfl⟩
  | cons act rest ih =>
      obtain ⟨hact, hrest⟩ := List.ne_and_not_mem_of_not_mem_cons hacts
      exact (stays_step hact.symm).trans (ih hrest)

/-! ## Main result -/

/-- It is the turn of this command: it is the first one in its lane that was not taken up yet, and
unless its lane is the one emptied first, all that were accepted for the other lane were. -/
structure HasTurn (job : Job) (early : List Happening) : Prop where
  first : ∃ gone waiting, acceptedIn job.request.priority early = gone ++ job :: waiting ∧
    (∀ other ∈ gone, Taken other.ticket early) ∧ ∀ other ∈ job :: waiting, ¬Taken other.ticket early
  high : job.request.priority = .low → ∀ other ∈ acceptedIn .high early, Taken other.ticket early

theorem Moment.hasTurn {early : List Happening} {time ticket : Nat} (hsound : ex.Sound)
    (horderly : ex.Orderly) (h : ex.Moment early (.taken time ticket)) :
    ∃ job, job.ticket = ticket ∧ HasTurn job early := by
  obtain ⟨next, hmove, hlog⟩ := h.move
  obtain rfl := h.timeline
  rcases hmove.picks_or_sends hlog rfl with ⟨_, lane, job, waiting, hlane, hfirst, hreport⟩ |
    ⟨_, _, _, hreport⟩
  · injection hreport with _ hticket
    obtain ⟨gone, haccepted, htaken⟩ := horderly hmove.phase_ne_ended lane
    have hmem : job ∈ acceptedIn lane ex.timeline := by
      rw [haccepted, hlane]
      exact List.mem_append_right _ List.mem_cons_self
    have hpriority := priority_of_mem_acceptedIn hmem
    refine ⟨job, hticket.symm, ⟨gone, waiting, ?_, htaken, ?_⟩, ?_⟩
    · rw [hpriority, haccepted, hlane]
    · rintro other hother ⟨before, hbefore⟩
      rw [← hlane] at hother
      exact hsound.unreported (CommandQueue.mem_lanes hother) hbefore rfl
    · intro hlow
      obtain ⟨early, hearly, hall⟩ := horderly hmove.phase_ne_ended .high
      have hempty : ex.queue.lane .high = [] := hfirst (hpriority.symm.trans hlow)
      rw [hempty, List.append_nil] at hearly
      rw [hearly]
      exact hall
  · cases hreport

/-- A command is taken up when it has its turn.  From then on until it has its result no other one
is taken up or sent, and what others do only puts commands behind those that wait. -/
theorem order_of_run (capacity txDelay : Nat) (earlier : List Event) (outlet : Outlet)
    (acts : List Act) :
    (∀ early time ticket late,
      ((start capacity txDelay earlier outlet).run acts).timeline =
        early ++ .reported (.taken time ticket) :: late →
      ∃ job, job.ticket = ticket ∧ HasTurn job early) ∧
    (∀ before report since next late,
      ((start capacity txDelay earlier outlet).run acts).timeline =
        (before ++ .reported report :: since) ++ .reported next :: late →
      report.isDone = false → next.isDone = false → report.ticket ≠ next.ticket →
      ∃ time result, .reported (.done time report.ticket result) ∈ since) ∧
    ∀ more, .move ∉ more →
      CommandQueue.Stays ((start capacity txDelay earlier outlet).run acts).queue
        (((start capacity txDelay earlier outlet).run acts).run more).queue := by
  have hmoment : ∀ {early report late},
      ((start capacity txDelay earlier outlet).run acts).timeline =
        early ++ .reported report :: late → report.isDone = false →
      ∃ ex : Exchange, (ex.Sound ∧ ex.Orderly) ∧ ex.Moment early report := by
    intro early report late htimeline hreport
    exact moment_of_run (P := fun ex => ex.Sound ∧ ex.Orderly)
      (fun ex next hex hmove => ⟨hex.1.move hmove, hex.2.move hmove⟩)
      (fun ex next hex heffect => ⟨hex.1.effect heffect, hex.2.effect heffect⟩)
      ⟨sound_start capacity txDelay earlier outlet, orderly_start capacity txDelay earlier outlet⟩
      htimeline hreport
  refine ⟨?_, ?_, fun more hmore => stays_run hmore⟩
  · intro early time ticket late htimeline
    obtain ⟨ex, ⟨hsound, horderly⟩, hex⟩ := hmoment htimeline rfl
    exact hex.hasTurn hsound horderly
  · intro before report since next late htimeline hreport hnext hticket
    obtain ⟨ex, ⟨hsound, _⟩, hex⟩ := hmoment htimeline hnext
    exact hex.done_since hsound hnext hreport hticket

example : ((start 4 0 [] { capacity? := some 1 }).run
    [.enqueue { lampRequest with priority := .low }, .enqueue lampRequest, .move,
      .publish (.stateChanged ⟨"lamp", [], []⟩), .move, .move]).timeline.filterMap
        (fun happening => match happening with
          | .reported (.taken _ ticket) => some ticket
          | _ => none) = [1, 0] := by
  cbv

end Exchange

end PanelBus
