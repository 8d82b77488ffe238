import PanelBus.Proofs.Sending.Attention
import PanelBus.Proofs.Sending.Owed
/-!
# Confirmations come after sendings

A command gets the result that its `k`-th sending was confirmed only while that sending waits, and
only by what was published since; and whatever confirms it then does bring that result, unless the
queue is told to stop first.
-/

namespace PanelBus

namespace CommandQueue

variable {bus : EventBus} {queue next : CommandQueue} {reports : List Report} {time ticket k : Nat}

/-- A move that reports a confirmation has just read it. -/
theorem Move.confirm_of_mem (hmove : Move bus queue next) (hlog : next.log = reports ++ queue.log)
    (hok : .done time ticket (.ok k) ∈ reports) :
    ∃ sending deadline reading events, queue.phase = .waiting sending deadline ∧
      bus.next? queue.watcher.events = some (reading, events) ∧
        reading.confirms sending.job.request.deviceId = true ∧
          sending.job.ticket = ticket ∧ sending.sent = k := by
  have hsingle : ∀ {report : Report}, report :: queue.log = reports ++ queue.log →
      .done time ticket (.ok k) = report := by
    intro report hreport
    have hreports : [report] = reports := List.append_cancel_right hreport
    rw [← hreports] at hok
    exact List.mem_singleton.1 hok
  have hnothing : queue.log ≠ reports ++ queue.log := by
    intro hsame
    have hsplit : [] ++ queue.log = reports ++ queue.log := hsame
    have hreports := List.append_cancel_right hsplit
    rw [← hreports] at hok
    cases hok
  cases hmove with
  | stop _ _ =>
      rw [stop_eq] at hlog
      rw [← List.append_cancel_right hlog, List.mem_reverse] at hok
      obtain ⟨job, _, hjob⟩ := List.mem_map.1 hok
      cases hjob
  | pickHigh _ _ _ => cases hsingle hlog
  | pickLow _ _ _ _ => cases hsingle hlog
  | transmit _ _ _ => cases hsingle hlog
  | ignore _ _ _ _ => exact absurd hlog hnothing
  | @confirm sending deadline reading events _ hphase hnext hconfirms =>
      have hreport : .done time ticket (.ok k) = Report.done queue.now sending.job.ticket
          (.ok sending.sent) := hsingle hlog
      injection hreport with _ hticket hresult
      injection hresult with hsent
      exact ⟨sending, deadline, reading, events, hphase, hnext, hconfirms, hticket.symm, hsent.symm⟩
  | giveUp _ _ _ _ _ => cases hsingle hlog
  | rest _ _ _ _ _ => exact absurd hlog hnothing
  | rise _ _ _ => exact absurd hlog hnothing

theorem confirm_of_proceed? (h : queue.proceed? bus = some next)
    (hlog : next.log = reports ++ queue.log) (hok : .done time ticket (.ok k) ∈ reports) :
    ∃ sending deadline reading events, queue.phase = .waiting sending deadline ∧
      bus.next? queue.watcher.events = some (reading, events) ∧
        reading.confirms sending.job.request.deviceId = true ∧
          sending.job.ticket = ticket ∧ sending.sent = k := by
  rcases moves_of_proceed? h with hone | ⟨middle, picked, hpacing, hone, htwo⟩
  · exact hone.confirm_of_mem hlog hok
  · obtain ⟨first, hfirst⟩ := hone.exists_log
    obtain ⟨second, hsecond⟩ := htwo.exists_log
    have hreports : reports = second ++ first := by
      rw [hfirst, ← List.append_assoc] at hsecond
      exact List.append_cancel_right (hlog.symm.trans hsecond)
    rw [hreports] at hok
    rcases List.mem_append.1 hok with hok | hok
    · obtain ⟨sending, deadline, _, _, hphase, _⟩ := htwo.confirm_of_mem hsecond hok
      rw [hpacing] at hphase
      cases hphase
    · exact hone.confirm_of_mem hfirst hok

end CommandQueue

namespace Exchange

variable {ex next : Exchange} {job : Job} {time ticket k : Nat} {early since : List Happening}
  {read : List Event}

/-! ## Nothing else confirms -/

theorem HasRead.confirmed_of_next? (h : ex.HasRead job k early since read)
    (hholds : ex.bus.Holds (publishedIn ex.timeline)) {reading : Reading} {events : Subscription}
    (hnext : ex.bus.next? ex.queue.watcher.events = some (reading, events))
    (hconfirms : reading.confirms job.request.deviceId = true) :
    ex.Confirmed job.request.deviceId since := by
  cases reading with
  | lagged skipped =>
      rcases hholds.next?_cases ex.queue.watcher.events with ⟨_, hnone⟩ | ⟨hlagged, _⟩ |
        ⟨_, other, _, hevent⟩
      · rw [hnone] at hnext
        cases hnext
      · exact .inr hlagged
      · rw [hevent] at hnext
        cases hnext
  | event event =>
      obtain ⟨_, hget⟩ := h.event_of_next? hholds hnext
      have hmem := mem_publishedIn.1 (List.mem_of_getElem? hget)
      cases event with
      | stateChanged change => exact .inl ⟨change, hmem, beq_iff_eq.1 hconfirms⟩
      | deviceError deviceId? kind message => cases hconfirms

/-- What the timeline says of a confirmation was there before, or an act found it now. -/
theorem Attentive.confirmed_of_done (h : ex.Attentive) (heffect : ex.Effect next)
    (hdone : .reported (.done time ticket (.ok k)) ∈ next.timeline) :
    .reported (.done time ticket (.ok k)) ∈ ex.timeline ∨
      ∃ job early since, job.ticket = ticket ∧ ex.WaitsSince job k early since ∧
        ex.Confirmed job.request.deviceId since := by
  cases heffect with
  | quiet hquiet =>
      rw [hquiet.timeline] at hdone
      exact .inl hdone
  | publish event => exact .inl ((List.mem_append.1 hdone).resolve_right (by simp))
  | accept hopen hcame => exact .inl ((List.mem_append.1 hdone).resolve_right (by simp))
  | send request hheld => exact .inl hdone
  | @refuse job error hcoming hrefusal =>
      have hlog : (ex.queue.conclude job (.error error)).log =
          .done ex.queue.now job.ticket (.error error) :: ex.queue.log := rfl
      change _ ∈ (ex.note _).timeline at hdone
      rw [timeline_note_cons hlog] at hdone
      exact .inl ((List.mem_append.1 hdone).resolve_right (by simp))
  | @move queue hmove =>
      obtain ⟨_, moved, hmoved, rfl⟩ := CommandQueue.exists_of_move? hmove
      obtain ⟨reports, hreports⟩ := CommandQueue.log_suffix_of_proceed? hmoved
      have hlog : ({ moved with spent := ex.queue.spent + 1 } : CommandQueue).log =
          reports ++ ex.queue.log := hreports.symm
      rw [timeline_note hlog] at hdone
      rcases List.mem_append.1 hdone with hbefore | hnow
      · exact .inl hbefore
      · obtain ⟨report, hreport, heq⟩ := List.mem_map.1 hnow
        injection heq with heq
        subst heq
        obtain ⟨sending, deadline, reading, events, hphase, hnext, hconfirms, hticket, hsent⟩ :=
          CommandQueue.confirm_of_proceed? hmoved hreports.symm (List.mem_reverse.1 hreport)
        obtain ⟨early, since, read, hread⟩ := h.waits sending deadline hphase
        rw [hsent] at hread
        exact .inr ⟨sending.job, early, since, hticket, hread.toWaitsSince,
          hread.confirmed_of_next? h.holds hnext hconfirms⟩

/-- When a timeline says that a command was confirmed, some act of the run found it out. -/
theorem Attentive.exists_confirmed (h : ex.Attentive) (hsound : ex.Sound) {acts : List Act}
    (hbefore : .reported (.done time ticket (.ok k)) ∉ ex.timeline)
    (hdone : .reported (.done time ticket (.ok k)) ∈ (ex.run acts).timeline) :
    ∃ first act rest, acts = first ++ act :: rest ∧
      .reported (.done time ticket (.ok k)) ∈ ((ex.run first).step act).timeline ∧
        ∃ job early since, job.ticket = ticket ∧ (ex.run first).WaitsSince job k early since ∧
          (ex.run first).Confirmed job.request.deviceId since := by
  induction acts generalizing ex with
  | nil => exact absurd hdone hbefore
  | cons act rest ih =>
      have heffect := ex.step_effect act
      by_cases hnow : .reported (.done time ticket (.ok k)) ∈ (ex.step act).timeline
      · have hfound := (h.confirmed_of_done heffect hnow).resolve_left hbefore
        exact ⟨[], act, rest, rfl, hnow, hfound⟩
      · obtain ⟨first, found, last, hacts, hfound⟩ :=
          ih (h.effect hsound heffect) (hsound.effect heffect) hnow hdone
        exact ⟨act :: first, found, last, by rw [hacts, List.cons_append], hfound⟩

/-- A queue that has missed events did so since the sending, by more than the bus keeps. -/
theorem Attentive.capacity_lt (h : ex.Attentive) (hwaits : ex.WaitsSince job k early since)
    (hlagged : 0 < ex.bus.skipped ex.queue.watcher.events) :
    ex.bus.capacity < (publishedIn since).length := by
  obtain ⟨left, deadline, hphase⟩ := hwaits.phase
  obtain ⟨early', since', read, hread⟩ := h.waits _ _ hphase
  obtain ⟨rfl, rfl⟩ := hwaits.unique hread.toWaitsSince
  have hfar := (h.holds.skipped_pos_iff _).1 hlagged
  rw [hwaits.publishedIn_eq, hread.position, List.length_append] at hfar
  omega

/-! ## What confirms is found -/

theorem Attentive.owes (h : ex.Attentive) (hwaits : ex.WaitsSince job k early since)
    (hconfirmed : ex.Confirmed job.request.deviceId since) : ex.queue.Owes ex.bus job k where
  phase := hwaits.phase
  unread := by
    by_cases hlagged : 0 < ex.bus.skipped ex.queue.watcher.events
    · exact .inl hlagged
    obtain ⟨change, hmem, hdevice⟩ := hconfirmed.resolve_right hlagged
    have hconfirms : (Event.stateChanged change).confirms job.request.deviceId = true :=
      beq_iff_eq.2 hdevice
    obtain ⟨left, deadline, hphase⟩ := hwaits.phase
    obtain ⟨early', since', read, hread⟩ := h.waits _ _ hphase
    obtain ⟨rfl, rfl⟩ := hwaits.unique hread.toWaitsSince
    obtain ⟨rest, hrest⟩ := hread.first
    refine .inr ⟨_, ?_, hconfirms⟩
    have hunread : ex.bus.unread ex.queue.watcher.events = rest := by
      rw [h.holds.unread_eq (by omega), hwaits.publishedIn_eq, hread.position, ← hrest,
        ← List.append_assoc]
      exact List.drop_left' List.length_append
    rw [hunread]
    rw [← mem_publishedIn, ← hrest] at hmem
    refine (List.mem_append.1 hmem).resolve_left ?_
    intro hignored
    rw [hread.ignored _ hignored] at hconfirms
    cases hconfirms

theorem stopping_of_effect (h : ex.Attentive) (heffect : ex.Effect next)
    (hquiet : next.queue.stopping = false) : ex.queue.stopping = false := by
  obtain ⟨hraisings, hholders⟩ := CommandQueue.stopping_eq_false_iff.1 hquiet
  cases heffect with
  | quiet hstill =>
      rw [hstill.watcher] at hraisings
      have hle := hstill.raisings
      have hheard := h.heard
      exact CommandQueue.stopping_eq_false_iff.2
        ⟨by omega, fun hnobody => hholders (hstill.holders hnobody)⟩
  | publish event => exact hquiet
  | accept hopen hcame =>
      rw [CommandQueue.signal_append] at hraisings hholders
      rw [CommandQueue.watcher_append] at hraisings
      exact CommandQueue.stopping_eq_false_iff.2 ⟨hraisings, hholders⟩
  | send request hheld => exact CommandQueue.stopping_eq_false_iff.2 ⟨hraisings, hheld⟩
  | refuse hcoming hrefusal => exact hquiet
  | move hmove =>
      obtain ⟨_, moved, hmoved, rfl⟩ := CommandQueue.exists_of_move? hmove
      obtain ⟨hsignal, hwatcher⟩ := CommandQueue.signal_eq_of_proceed? hmoved
      change moved.signal.raisings = moved.watcher.signal.raisings at hraisings
      change moved.signal.holders ≠ 0 at hholders
      rw [hsignal, hwatcher] at hraisings
      rw [hsignal] at hholders
      exact CommandQueue.stopping_eq_false_iff.2 ⟨hraisings, hholders⟩

theorem log_suffix_of_effect (heffect : ex.Effect next) : ex.queue.log <:+ next.queue.log := by
  cases heffect with
  | quiet hquiet => exact ⟨[], hquiet.log.symm⟩
  | publish event => exact List.suffix_refl _
  | @accept job issued coming hopen hcame =>
      have hlog := ({ ex.queue with issued } : CommandQueue).log_append job
      exact ⟨[], hlog.symm⟩
  | send request hheld => exact List.suffix_refl _
  | refuse hcoming hrefusal => exact List.suffix_cons _ _
  | move hmove =>
      obtain ⟨_, moved, hmoved, rfl⟩ := CommandQueue.exists_of_move? hmove
      have hlog := CommandQueue.log_suffix_of_proceed? hmoved
      exact hlog

/-- A confirmation that is there to be read stays there until it is read. -/
theorem Attentive.owes_or_done (h : ex.Attentive) (howes : ex.queue.Owes ex.bus job k)
    (heffect : ex.Effect next) (hquiet : next.queue.stopping = false) :
    next.queue.Owes next.bus job k ∨ ∃ time, .done time job.ticket (.ok k) ∈ next.queue.log := by
  have hbefore := stopping_of_effect h heffect hquiet
  cases heffect with
  | quiet hstill =>
      rw [hstill.bus]
      exact .inl (howes.of_eq hstill.phase hstill.watcher)
  | publish event => exact .inl (howes.publish h.holds event)
  | accept hopen hcame =>
      exact .inl (howes.of_eq (CommandQueue.phase_append _ _) (CommandQueue.watcher_append _ _))
  | send request hheld => exact .inl (howes.of_eq rfl rfl)
  | refuse hcoming hrefusal => exact .inl (howes.of_eq rfl rfl)
  | move hmove =>
      obtain ⟨_, moved, hmoved, rfl⟩ := CommandQueue.exists_of_move? hmove
      obtain ⟨other, hother, hcases⟩ := howes.proceed? h.holds hbefore
      rw [hother] at hmoved
      obtain rfl := Option.some.inj hmoved
      rcases hcases with ⟨behind, _, hstill⟩ | hlog
      · exact .inl (hstill.of_eq rfl rfl)
      · refine .inr ⟨ex.queue.now, ?_⟩
        change _ ∈ other.log
        rw [hlog]
        exact List.mem_cons_self

theorem log_suffix_run (ex : Exchange) (acts : List Act) :
    ex.queue.log <:+ (ex.run acts).queue.log := by
  induction acts generalizing ex with
  | nil => exact List.suffix_refl _
  | cons act rest ih => exact (log_suffix_of_effect (ex.step_effect act)).trans (ih (ex.step act))

/-- A queue that is not told to stop has not been told before. -/
theorem stopping_of_run (h : ex.Attentive) (hsound : ex.Sound) (acts : List Act)
    (hquiet : (ex.run acts).queue.stopping = false) : ex.queue.stopping = false := by
  induction acts generalizing ex with
  | nil => exact hquiet
  | cons act rest ih =>
      have heffect := ex.step_effect act
      have hnext := ih (h.effect hsound heffect) (hsound.effect heffect) hquiet
      exact stopping_of_effect h heffect hnext

/-- At any later time the command has that result, or gets it as soon as the queue has come to
rest. -/
theorem Attentive.done_or_settle (h : ex.Attentive) (hsound : ex.Sound)
    (howes : ex.queue.Owes ex.bus job k) (acts : List Act)
    (hquiet : (ex.run acts).queue.endTurn.stopping = false) :
    (∃ time, .done time job.ticket (.ok k) ∈ (ex.run acts).queue.log) ∨
      .done (ex.run acts).queue.now job.ticket (.ok k) ∈
        ((ex.run acts).queue.settle (ex.run acts).bus).log := by
  induction acts generalizing ex with
  | nil => exact .inr (howes.settle h.holds hquiet)
  | cons act rest ih =>
      have heffect := ex.step_effect act
      have hattentive := h.effect hsound heffect
      have hnext : (ex.step act).queue.stopping = false :=
        stopping_of_run hattentive (hsound.effect heffect) rest
          (CommandQueue.stopping_of_endTurn hquiet)
      rcases h.owes_or_done howes heffect hnext with hstill | ⟨time, hdone⟩
      · exact ih hattentive (hsound.effect heffect) hstill hquiet
      · exact .inl ⟨time, ((ex.step act).log_suffix_run rest).mem hdone⟩

/-! ## What was before a command was sent -/

/-- What a timeline begins with is before a sending if it has no sendings of that command. -/
theorem WaitsSince.prefix_early (h : ex.WaitsSince job k early since) {first : List Happening}
    (hfirst : first <+: ex.timeline) (hunsent : sendings job.ticket first = 0) :
    first <+: early := by
  obtain ⟨time, htimeline⟩ := h.timeline
  rw [htimeline, List.append_cons] at hfirst
  have hsent : ∀ rest, first ≠ early ++
      [.reported (.sent time job.ticket job.request.frame)] ++ rest := by
    intro rest heq
    rw [heq, sendings_append, sendings_append, sendings_sent] at hunsent
    omega
  -- Both begin the timeline, so one of them begins the other.
  rcases List.prefix_or_prefix_of_prefix hfirst (List.prefix_append _ since) with hle | ⟨rest, heq⟩
  · refine (List.prefix_concat_iff.1 hle).resolve_left ?_
    intro heq
    exact hsent [] (by rw [heq, List.append_nil])
  · exact absurd heq.symm (hsent rest)

/-- A command is accepted before all its sendings, and so is all that happened before that. -/
theorem Sound.accepted_early (h : ex.Sound) (hwaits : ex.WaitsSince job k early since)
    {before after : List Happening} (htimeline : ex.timeline = before ++ .accepted job :: after) :
    before ++ [.accepted job] <+: early := by
  refine hwaits.prefix_early ⟨after, by rw [htimeline, List.append_assoc]; rfl⟩ ?_
  have hjob : .accepted job ∈ ex.timeline := by
    rw [htimeline]
    exact List.mem_append_right _ List.mem_cons_self
  obtain ⟨taken, sent, result?, hstory, _⟩ := h.told hjob
  rw [htimeline, List.append_cons, story_append, story_append, story_accepted,
    List.append_assoc] at hstory
  have hbefore : story job.ticket before = [] := eq_nil_of_append_accepted hstory
  unfold sendings
  rw [story_append, story_accepted, hbefore]
  rfl

end Exchange

end PanelBus
