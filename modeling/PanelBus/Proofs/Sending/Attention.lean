import PanelBus.Proofs.Event.Bus
import PanelBus.Proofs.Sending.Course
/-!
# What a waiting queue has read

A queue that waits for a confirmation has read, of what was published since the sending, a first
part in which nothing confirms the command.  What was published before the sending is behind it.
-/

namespace PanelBus

def Deed.isSent : Deed → Bool
  | .sent _ => true
  | _ => false

/-- How often a command is sent in a part of a timeline. -/
def sendings (ticket : Nat) (timeline : List Happening) : Nat :=
  (story ticket timeline).countP Deed.isSent

@[simp] theorem sendings_append (ticket : Nat) (timeline more : List Happening) :
    sendings ticket (timeline ++ more) = sendings ticket timeline + sendings ticket more := by
  simp [sendings]

theorem sendings_sent (time ticket : Nat) (frame : Bytes) :
    sendings ticket [.reported (.sent time ticket frame)] = 1 := by
  simp [sendings, story, Happening.deed?, Report.ticket, Report.deed, Deed.isSent]

theorem sendings_accepted (ticket : Nat) (job : Job) : sendings ticket [.accepted job] = 0 := by
  by_cases hticket : job.ticket = ticket <;>
    simp [sendings, story, Happening.deed?, Deed.isSent, hticket]

theorem sendings_reported_done (ticket time other : Nat) (result : CommandResult) :
    sendings ticket [.reported (.done time other result)] = 0 := by
  by_cases hticket : other = ticket <;>
    simp [sendings, story, Happening.deed?, Report.ticket, Report.deed, Deed.isSent, hticket]

theorem countP_isSent_course (request : SendRequest) (taken : Bool) (sendings : Nat)
    (result? : Option CommandResult) :
    (request.course taken sendings result?).countP Deed.isSent = sendings := by
  cases taken <;> cases result? <;>
    simp [SendRequest.course, List.countP_replicate, Deed.isSent]

theorem mem_publishedIn {event : Event} {timeline : List Happening} :
    event ∈ publishedIn timeline ↔ .published event ∈ timeline := by
  unfold publishedIn
  rw [List.mem_filterMap]
  constructor
  · rintro ⟨happening, hmem, hevent⟩
    cases happening with
    | published other =>
        obtain rfl := Option.some.inj hevent
        exact hmem
    | accepted job => cases hevent
    | reported report => cases hevent
  · intro hmem
    exact ⟨_, hmem, rfl⟩

/-- Only one sending of a command is not followed by another one. -/
theorem last_sending_unique {ticket : Nat} {early early' since since' : List Happening}
    {sent sent' : Happening} (heq : early ++ sent :: since = early' ++ sent' :: since')
    (hsent : sendings ticket [sent] = 1) (hsent' : sendings ticket [sent'] = 1)
    (hsince : sendings ticket since = 0) (hsince' : sendings ticket since' = 0) :
    early = early' ∧ since = since' := by
  have hlater : ∀ {earlier later rest : List Happening} {first last : Happening},
      first :: later = earlier ++ last :: rest → earlier ≠ [] → sendings ticket [last] = 1 →
        sendings ticket later ≠ 0 := by
    intro earlier later rest first last hsplit hearlier hlast
    obtain ⟨head, tail, rfl⟩ := List.exists_cons_of_ne_nil hearlier
    rw [List.cons_append] at hsplit
    obtain ⟨_, rfl⟩ := List.cons.inj hsplit
    rw [List.append_cons, sendings_append, sendings_append]
    omega
  rcases List.append_eq_append_iff.1 heq with ⟨middle, hearly, hrest⟩ | ⟨middle, hearly, hrest⟩
  · by_cases hmiddle : middle = []
    · subst hmiddle
      exact ⟨by simpa using hearly.symm, (List.cons.inj hrest).2⟩
    · exact absurd hsince (hlater hrest hmiddle hsent')
  · by_cases hmiddle : middle = []
    · subst hmiddle
      exact ⟨by simpa using hearly, (List.cons.inj hrest).2.symm⟩
    · exact absurd hsince' (hlater hrest hmiddle hsent)

namespace CommandQueue

/-- After a move the queue waits: it has waited before and passed over an event, or it has just
sent. -/
theorem Move.waiting_cases {bus : EventBus} {queue next : CommandQueue} {sending : Sending}
    {deadline : Nat} (hmove : Move bus queue next)
    (hphase : next.phase = .waiting sending deadline) :
    (queue.phase = .waiting sending deadline ∧ ∃ reading events,
      bus.next? queue.watcher.events = some (reading, events) ∧
        reading.confirms sending.job.request.deviceId = false ∧ next = queue.read events) ∨
    (∃ before, queue.phase = .pacing before ∧ sending = { before with sent := before.sent + 1 } ∧
      next = queue.transmit bus before) := by
  cases hmove with
  | stop _ _ => cases hphase
  | pickHigh _ _ _ => cases hphase
  | pickLow _ _ _ _ => cases hphase
  | @transmit before _ hpacing _ =>
      injection hphase with hsending
      exact .inr ⟨before, hpacing, hsending.symm, rfl⟩
  | @ignore other due reading events _ hwaiting hnext hconfirms =>
      have hsame : Phase.waiting other due = .waiting sending deadline := hwaiting.symm.trans hphase
      injection hsame with hother hdue
      subst hother hdue
      exact .inl ⟨hwaiting, reading, events, hnext, hconfirms, rfl⟩
  | confirm _ _ _ _ => cases hphase
  | giveUp _ _ _ _ _ => cases hphase
  | rest _ _ _ _ _ => cases hphase
  | rise _ _ _ => cases hphase

end CommandQueue

namespace Exchange

/-- The `k`-th sending of the command waits for its confirmation.  This is what was before the
sending and what has been since. -/
structure WaitsSince (ex : Exchange) (job : Job) (k : Nat) (early since : List Happening) :
    Prop where
  phase : ∃ left deadline, ex.queue.phase = .waiting ⟨job, k, left⟩ deadline
  timeline : ∃ time, ex.timeline =
    early ++ .reported (.sent time job.ticket job.request.frame) :: since
  before : sendings job.ticket early + 1 = k
  after : sendings job.ticket since = 0

/-- Something has happened since a sending that confirms it: the state of the device has changed, or
the queue has missed events. -/
def Confirmed (ex : Exchange) (deviceId : String) (since : List Happening) : Prop :=
  (∃ change, .published (.stateChanged change) ∈ since ∧ change.deviceId = deviceId) ∨
    0 < ex.bus.skipped ex.queue.watcher.events

/-- The queue has read these events since the sending, and passed over them. -/
structure HasRead (ex : Exchange) (job : Job) (k : Nat) (early since : List Happening)
    (read : List Event) : Prop extends WaitsSince ex job k early since where
  position : ex.queue.watcher.events.position = (publishedIn early).length + read.length
  first : read <+: publishedIn since
  ignored : ∀ event ∈ read, event.confirms job.request.deviceId = false

/-- The bus holds what was published, the queue has heard no more than was said, and when it waits
it has passed over what it has read. -/
structure Attentive (ex : Exchange) : Prop where
  holds : ex.bus.Holds (publishedIn ex.timeline)
  heard : ex.queue.watcher.signal.raisings ≤ ex.queue.signal.raisings
  waits : ∀ sending deadline, ex.queue.phase = .waiting sending deadline →
    ∃ early since read, ex.HasRead sending.job sending.sent early since read

variable {ex next : Exchange} {job : Job} {k : Nat} {early since : List Happening}
  {read : List Event}

theorem WaitsSince.unique (h : ex.WaitsSince job k early since) {early' since' : List Happening}
    (h' : ex.WaitsSince job k early' since') : early = early' ∧ since = since' := by
  obtain ⟨time, htimeline⟩ := h.timeline
  obtain ⟨time', htimeline'⟩ := h'.timeline
  exact last_sending_unique (htimeline.symm.trans htimeline') (sendings_sent _ _ _)
    (sendings_sent _ _ _) h.after h'.after

theorem WaitsSince.publishedIn_eq (h : ex.WaitsSince job k early since) :
    publishedIn ex.timeline = publishedIn early ++ publishedIn since := by
  obtain ⟨time, htimeline⟩ := h.timeline
  rw [htimeline, publishedIn_append, publishedIn_cons_reported]

/-- The event that the queue finds next was published since the sending. -/
theorem HasRead.event_of_next? (h : ex.HasRead job k early since read)
    (hholds : ex.bus.Holds (publishedIn ex.timeline)) {event : Event} {events : Subscription}
    (hnext : ex.bus.next? ex.queue.watcher.events = some (.event event, events)) :
    events.position = ex.queue.watcher.events.position + 1 ∧
      (publishedIn since)[read.length]? = some event := by
  rcases hholds.next?_cases ex.queue.watcher.events with ⟨_, hnone⟩ | ⟨_, behind, hlagged⟩ |
    ⟨_, other, hother, hevent⟩
  · rw [hnone] at hnext
    cases hnext
  · rw [hlagged] at hnext
    cases hnext
  · rw [hevent] at hnext
    cases hnext
    rw [h.publishedIn_eq, h.position, List.getElem?_append_right (Nat.le_add_right _ _),
      Nat.add_sub_cancel_left] at hother
    exact ⟨rfl, hother⟩

/-! ## Attention is kept -/

/-- What happens around a queue that goes on waiting leaves it as attentive as it was. -/
theorem Attentive.grow (h : ex.Attentive) {more : List Happening}
    (hqueue : next.queue.phase = ex.queue.phase ∧ next.queue.watcher = ex.queue.watcher)
    (htimeline : next.timeline = ex.timeline ++ more) (hmore : ∀ ticket, sendings ticket more = 0)
    (hholds : next.bus.Holds (publishedIn next.timeline))
    (hraisings : ex.queue.signal.raisings ≤ next.queue.signal.raisings) : next.Attentive where
  holds := hholds
  heard := by
    rw [hqueue.2]
    exact Nat.le_trans h.heard hraisings
  waits := by
    intro sending deadline hphase
    obtain ⟨early, since, read, hread⟩ := h.waits sending deadline (hqueue.1 ▸ hphase)
    obtain ⟨time, hbefore⟩ := hread.timeline
    refine ⟨early, since ++ more, read, ⟨⟨⟨_, _, hphase⟩, ⟨time, ?_⟩, hread.before, ?_⟩, ?_, ?_,
      hread.ignored⟩⟩
    · rw [htimeline, hbefore, List.append_assoc, List.cons_append]
    · rw [sendings_append, hread.after, hmore]
    · rw [hqueue.2]
      exact hread.position
    · rw [publishedIn_append]
      exact hread.first.trans (List.prefix_append _ _)

theorem HasRead.ignore (h : ex.HasRead job k early since read)
    (hholds : ex.bus.Holds (publishedIn ex.timeline)) {reading : Reading} {events : Subscription}
    (hnext : ex.bus.next? ex.queue.watcher.events = some (reading, events))
    (hconfirms : reading.confirms job.request.deviceId = false) :
    ∃ event, (ex.note (ex.queue.read events)).HasRead job k early since (read ++ [event]) := by
  cases reading with
  | lagged skipped => cases hconfirms
  | event event =>
      obtain ⟨hposition, hget⟩ := h.event_of_next? hholds hnext
      obtain ⟨time, htimeline⟩ := h.timeline
      refine ⟨event, ⟨h.phase, ⟨time, ?_⟩, h.before, h.after⟩, ?_, ?_, ?_⟩
      · have hlog : (ex.queue.read events).log = ex.queue.log := rfl
        rw [timeline_note_nil hlog]
        exact htimeline
      · change events.position = _
        rw [hposition, h.position, List.length_append, List.length_singleton, Nat.add_assoc]
      · obtain ⟨rest, hrest⟩ := h.first
        rw [← hrest, List.getElem?_append_right (Nat.le_refl _), Nat.sub_self,
          ← List.head?_eq_getElem?] at hget
        obtain ⟨tail, rfl⟩ := List.head?_eq_some_iff.1 hget
        exact ⟨tail, by rw [← hrest, List.append_assoc, List.singleton_append]⟩
      · intro other hother
        rcases List.mem_append.1 hother with hread | hnew
        · exact h.ignored other hread
        · obtain rfl := List.mem_singleton.1 hnew
          exact hconfirms

/-- Right after a sending nothing was read yet, and all that was published is behind. -/
theorem Sound.hasRead_transmit (h : ex.Sound) (hholds : ex.bus.Holds (publishedIn ex.timeline))
    {sending : Sending} (hphase : ex.queue.phase = .pacing sending) :
    (ex.note (ex.queue.transmit ex.bus sending)).HasRead sending.job (sending.sent + 1)
      ex.timeline [] [] where
  phase := ⟨_, _, rfl⟩
  timeline := ⟨ex.queue.now, timeline_note_cons rfl⟩
  before := by
    have hentry : sending.entry ∈ ex.entries :=
      (entries_of_phase (by rw [hphase]; rfl)).mem_iff.2 List.mem_cons_self
    have hstory := (h.ledger.told _ hentry).2
    have hsent := countP_isSent_course sending.job.request true sending.sent none
    unfold sendings
    change story sending.job.ticket ex.timeline = _ at hstory
    rw [hstory]
    change (SendRequest.course _ _ _ _).countP _ + 1 = _
    rw [hsent]
  after := rfl
  -- A queue passes over everything on the bus right before it sends.
  position := hholds.published
  first := List.nil_prefix
  ignored := fun _ hnone => nomatch hnone

theorem Attentive.move (h : ex.Attentive) (hsound : ex.Sound) {queue : CommandQueue}
    (hmove : CommandQueue.Move ex.bus ex.queue queue) : (ex.note queue).Attentive where
  holds := by
    obtain ⟨reports, hlog⟩ := hmove.exists_log
    rw [timeline_note hlog, publishedIn_append, publishedIn_reports, List.append_nil]
    exact h.holds
  heard := by
    obtain ⟨hsignal, hwatcher⟩ := hmove.signal_eq
    change queue.watcher.signal.raisings ≤ queue.signal.raisings
    rw [hsignal, hwatcher]
    exact h.heard
  waits := by
    intro sending deadline hphase
    rcases hmove.waiting_cases hphase with
      ⟨hwaiting, reading, events, hnext, hconfirms, rfl⟩ | ⟨before, hpacing, rfl, rfl⟩
    · obtain ⟨early, since, read, hread⟩ := h.waits sending deadline hwaiting
      obtain ⟨event, hevent⟩ := hread.ignore h.holds hnext hconfirms
      exact ⟨early, since, read ++ [event], hevent⟩
    · exact ⟨_, _, _, hsound.hasRead_transmit h.holds hpacing⟩

theorem Attentive.quiet (h : ex.Attentive) (hquiet : Quiet ex next) : next.Attentive := by
  have htimeline : next.timeline = ex.timeline ++ [] := by
    rw [hquiet.timeline, List.append_nil]
  refine h.grow ⟨hquiet.phase, hquiet.watcher⟩ htimeline (fun _ => rfl) ?_ hquiet.raisings
  rw [hquiet.bus, hquiet.timeline]
  exact h.holds

theorem Attentive.effect (h : ex.Attentive) (hsound : ex.Sound) (heffect : ex.Effect next) :
    next.Attentive := by
  cases heffect with
  | quiet hquiet => exact h.quiet hquiet
  | publish event =>
      refine h.grow ⟨rfl, rfl⟩ rfl (fun _ => rfl) ?_ (Nat.le_refl _)
      rw [publishedIn_append, publishedIn_published]
      exact h.holds.publish event
  | @accept job issued coming hopen hcame =>
      refine h.grow ⟨CommandQueue.phase_append _ _, CommandQueue.watcher_append _ _⟩ rfl
        (fun ticket => sendings_accepted ticket job) ?_ ?_
      · rw [publishedIn_append, publishedIn_cons_accepted, publishedIn_nil, List.append_nil]
        exact h.holds
      · have hsignal := ({ ex.queue with issued } : CommandQueue).signal_append job
        exact Nat.le_of_eq (congrArg StopSignal.raisings hsignal.symm)
  | send request hheld =>
      have htimeline : ex.timeline = ex.timeline ++ [] := (List.append_nil _).symm
      exact h.grow ⟨rfl, rfl⟩ htimeline (fun _ => rfl) h.holds (Nat.le_refl _)
  | @refuse job error hcoming hrefusal =>
      have hlog : (ex.queue.conclude job (.error error)).log =
          .done ex.queue.now job.ticket (.error error) :: ex.queue.log := rfl
      refine h.grow ⟨rfl, rfl⟩ (timeline_note_cons hlog) ?_ ?_ (Nat.le_refl _)
      · intro ticket
        exact sendings_reported_done _ _ _ _
      · change ex.bus.Holds (publishedIn (ex.note _).timeline)
        rw [timeline_note_cons hlog, publishedIn_append, publishedIn_cons_reported,
          publishedIn_nil, List.append_nil]
        exact h.holds
  | move hmove =>
      have hboth := note_of_move? (P := fun ex => ex.Sound ∧ ex.Attentive)
        (fun ex next hex hquiet => ⟨hex.1.quiet hquiet, hex.2.quiet hquiet⟩)
        (fun ex next hex hmove => ⟨hex.1.move hmove, hex.2.move hex.1 hmove⟩) ⟨hsound, h⟩ hmove
      exact hboth.2

theorem attentive_start (capacity txDelay : Nat) (earlier : List Event) (outlet : Outlet) :
    (start capacity txDelay earlier outlet).Attentive where
  holds := by
    change EventBus.Holds _ (publishedIn (earlier.map .published))
    rw [publishedIn_map_published]
    exact (EventBus.holds_ofCapacity capacity).publishAll earlier
  heard := Nat.le_refl 0
  waits := fun _ _ hphase => nomatch hphase

theorem attentive_run (capacity txDelay : Nat) (earlier : List Event) (outlet : Outlet)
    (acts : List Act) : ((start capacity txDelay earlier outlet).run acts).Attentive := by
  have hboth := run_of (P := fun ex => ex.Sound ∧ ex.Attentive)
    (fun ex act hex => ⟨hex.1.effect (ex.step_effect act), hex.2.effect hex.1 (ex.step_effect act)⟩)
    (start capacity txDelay earlier outlet)
    ⟨sound_start capacity txDelay earlier outlet, attentive_start capacity txDelay earlier outlet⟩
    acts
  exact hboth.2

end Exchange

end PanelBus
