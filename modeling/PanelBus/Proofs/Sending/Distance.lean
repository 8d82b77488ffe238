import PanelBus.Proofs.Sending.Moments
/-!
# The distance between sendings

A line is used by one command at a time.  Between any two sendings lies at least the distance that
the line asks for, and between two sendings of one command also the wait for its confirmation and
the rest after it.
-/

namespace PanelBus

/-- The wait after a sending and the rest before the next one. -/
def RetryPolicy.pause (retry : RetryPolicy) : Nat :=
  min retry.timeout Clock.longestWait + min retry.interval Clock.longestWait

namespace CommandQueue

variable {bus : EventBus} {queue next : CommandQueue}

/-- The earliest time at which the command at hand can be sent next. -/
def earliest (queue : CommandQueue) : Nat :=
  match queue.phase with
  | .waiting sending deadline => Clock.after deadline sending.job.request.retry.interval
  | .resting _ wake => wake
  | .idle | .pacing _ | .ended => queue.now

theorem earliest_transmit (sending : Sending) :
    (queue.transmit bus sending).earliest = queue.now + sending.job.request.retry.pause :=
  Nat.add_assoc _ _ _

/-- Time that passes brings no sending forward. -/
theorem earliest_mono (hphase : next.phase = queue.phase) (hnow : queue.now ≤ next.now) :
    queue.earliest ≤ next.earliest := by
  unfold earliest
  rw [hphase]
  split
  · exact Nat.le_refl _
  · exact Nat.le_refl _
  all_goals exact hnow

/-- Nothing is sent.  The command at hand has just left its lane, or it was at hand before and will
not be sent any earlier. -/
structure Silent (queue next : CommandQueue) : Prop where
  pace : next.txDelay = queue.txDelay ∧ next.lastTx? = queue.lastTx?
  log : ∃ reports, next.log = reports ++ queue.log ∧ ∀ report ∈ reports, report.frame? = none
  hand : ∀ sending, next.phase.sending? = some sending →
    sending.job ∈ queue.high ++ queue.low ∨ ∃ before, queue.phase.sending? = some before ∧
      before.job = sending.job ∧ queue.earliest ≤ next.earliest

theorem silent_finish {job : Job} {result : CommandResult} :
    Silent queue (queue.finish job result) where
  pace := ⟨rfl, rfl⟩
  log := ⟨[.done queue.now job.ticket result], rfl, by simp [Report.frame?]⟩
  hand := fun _ hnone => nomatch hnone

theorem silent_pick {picked : CommandQueue} {job : Job}
    (hpace : picked.txDelay = queue.txDelay ∧ picked.lastTx? = queue.lastTx?)
    (hlog : picked.log = queue.log) (hjob : job ∈ queue.high ++ queue.low) :
    Silent queue (picked.pick job) where
  pace := hpace
  log := ⟨[.taken picked.now job.ticket], by rw [← hlog]; rfl, by simp [Report.frame?]⟩
  hand := by
    intro sending hsending
    obtain rfl := Option.some.inj hsending
    exact .inl hjob

theorem Move.silent_or_sends (h : Move bus queue next) : Silent queue next ∨
    ∃ sending, queue.phase = .pacing sending ∧ queue.ready ≤ queue.now ∧
      next = queue.transmit bus sending := by
  cases h with
  | stop _ _ =>
      left
      rw [stop_eq]
      refine ⟨⟨rfl, rfl⟩, ⟨_, rfl, ?_⟩, fun _ hnone => nomatch hnone⟩
      intro report hreport
      obtain ⟨job, _, rfl⟩ := List.mem_map.1 (List.mem_reverse.1 hreport)
      rfl
  | pickHigh _ _ hhigh =>
      refine .inl (silent_pick ⟨rfl, rfl⟩ rfl ?_)
      rw [hhigh]
      exact List.mem_append_left _ List.mem_cons_self
  | pickLow _ _ _ hlow =>
      refine .inl (silent_pick ⟨rfl, rfl⟩ rfl ?_)
      rw [hlow]
      exact List.mem_append_right _ List.mem_cons_self
  | transmit _ hphase hready => exact .inr ⟨_, hphase, hready, rfl⟩
  | ignore _ _ _ _ =>
      exact .inl ⟨⟨rfl, rfl⟩, ⟨[], rfl, fun _ hnone => nomatch hnone⟩,
        fun sending hsending => .inr ⟨sending, hsending, rfl, Nat.le_refl _⟩⟩
  | confirm _ _ _ _ =>
      obtain ⟨hpace, hlog, hhand⟩ := silent_finish
      exact .inl ⟨hpace, hlog, fun _ hnone => nomatch hnone⟩
  | giveUp _ _ _ _ _ => exact .inl silent_finish
  | @rest sending deadline left _ hphase _ hdue _ =>
      refine .inl ⟨⟨rfl, rfl⟩, ⟨[], rfl, fun _ hnone => nomatch hnone⟩, ?_⟩
      intro resting hresting
      obtain rfl := Option.some.inj hresting
      refine .inr ⟨sending, by rw [hphase]; rfl, rfl, ?_⟩
      simp only [earliest, hphase]
      exact Nat.add_le_add_right hdue _
  | @rise sending wake _ hphase hdue =>
      refine .inl ⟨⟨rfl, rfl⟩, ⟨[], rfl, fun _ hnone => nomatch hnone⟩, ?_⟩
      intro pacing hpacing
      obtain rfl := Option.some.inj hpacing
      refine .inr ⟨sending, by rw [hphase]; rfl, rfl, ?_⟩
      simp only [earliest, hphase]
      exact hdue

end CommandQueue

namespace Exchange

variable {ex next : Exchange} {txDelay : Nat}

/-- The queue remembers the last of all sendings, and does not send the command at hand again
before its pause is over. -/
structure Timed (txDelay : Nat) (ex : Exchange) : Prop where
  delay : ex.queue.txDelay = txDelay
  last : ∀ time ticket frame, .reported (.sent time ticket frame) ∈ ex.timeline →
    ∃ last, ex.queue.lastTx? = some last ∧ time ≤ last
  pause : ∀ sending, ex.queue.phase.sending? = some sending → ∀ time frame,
    .reported (.sent time sending.job.ticket frame) ∈ ex.timeline →
      time + sending.job.request.retry.pause ≤ ex.queue.earliest

theorem Timed.ready (h : ex.Timed txDelay) (hready : ex.queue.ready ≤ ex.queue.now)
    {time ticket : Nat} {frame : Bytes}
    (hsent : .reported (.sent time ticket frame) ∈ ex.timeline) :
    time + txDelay ≤ ex.queue.now := by
  obtain ⟨last, hlast, hle⟩ := h.last time ticket frame hsent
  have hdelay := h.delay
  simp only [CommandQueue.ready, hlast] at hready
  omega

/-- What sends nothing and brings no sending forward keeps the time. -/
theorem Timed.silent (h : ex.Timed txDelay)
    (hpace : next.queue.txDelay = ex.queue.txDelay ∧ next.queue.lastTx? = ex.queue.lastTx?)
    (hsent : ∀ time ticket frame, .reported (.sent time ticket frame) ∈ next.timeline →
      .reported (.sent time ticket frame) ∈ ex.timeline)
    (hhand : ∀ sending, next.queue.phase.sending? = some sending →
      (∀ time frame, .reported (.sent time sending.job.ticket frame) ∉ ex.timeline) ∨
        ∃ before, ex.queue.phase.sending? = some before ∧ before.job = sending.job ∧
          ex.queue.earliest ≤ next.queue.earliest) : next.Timed txDelay where
  delay := by
    rw [hpace.1]
    exact h.delay
  last := by
    intro time ticket frame hmem
    rw [hpace.2]
    exact h.last time ticket frame (hsent time ticket frame hmem)
  pause := by
    intro sending hsending time frame hmem
    have hbefore := hsent _ _ _ hmem
    rcases hhand sending hsending with hunsent | ⟨before, hhand, hjob, hle⟩
    · exact absurd hbefore (hunsent time frame)
    · rw [← hjob] at hbefore ⊢
      exact Nat.le_trans (h.pause before hhand time frame hbefore) hle

theorem Timed.transmit (h : ex.Timed txDelay) (sending : Sending)
    (hready : ex.queue.ready ≤ ex.queue.now) :
    (ex.note (ex.queue.transmit ex.bus sending)).Timed txDelay := by
  have htimeline : (ex.note (ex.queue.transmit ex.bus sending)).timeline = _ :=
    timeline_note_cons rfl
  have hcases : ∀ time ticket frame, .reported (.sent time ticket frame) ∈
      (ex.note (ex.queue.transmit ex.bus sending)).timeline →
        .reported (.sent time ticket frame) ∈ ex.timeline ∨ time = ex.queue.now := by
    intro time ticket frame hmem
    rw [htimeline] at hmem
    rcases List.mem_append.1 hmem with hmem | hmem
    · exact .inl hmem
    · cases List.mem_singleton.1 hmem
      exact .inr rfl
  refine ⟨h.delay, ?_, ?_⟩
  · intro time ticket frame hmem
    refine ⟨ex.queue.now, rfl, ?_⟩
    rcases hcases time ticket frame hmem with hbefore | rfl
    · exact Nat.le_of_add_right_le (h.ready hready hbefore)
    · exact Nat.le_refl _
  · intro waiting hwaiting time frame hmem
    obtain rfl := Option.some.inj hwaiting
    have hnow : (ex.note (ex.queue.transmit ex.bus sending)).queue.earliest =
        ex.queue.now + sending.job.request.retry.pause := CommandQueue.earliest_transmit sending
    rw [hnow]
    apply Nat.add_le_add_right
    rcases hcases _ _ _ hmem with hbefore | rfl
    · exact Nat.le_of_add_right_le (h.ready hready hbefore)
    · exact Nat.le_refl _

theorem Timed.move (h : ex.Timed txDelay) (hsound : ex.Sound) {queue : CommandQueue}
    (hmove : CommandQueue.Move ex.bus ex.queue queue) : (ex.note queue).Timed txDelay := by
  rcases hmove.silent_or_sends with ⟨hpace, ⟨reports, hlog, hframes⟩, hhand⟩ |
    ⟨sending, _, hready, rfl⟩
  · refine h.silent hpace ?_ ?_
    · intro time ticket frame hmem
      rw [timeline_note hlog] at hmem
      refine (List.mem_append.1 hmem).resolve_right ?_
      intro hnew
      obtain ⟨report, hreport, hsent⟩ := List.mem_map.1 hnew
      injection hsent with hsent
      subst hsent
      cases hframes _ (List.mem_reverse.1 hreport)
    · intro sending hsending
      refine (hhand sending hsending).imp_left ?_
      intro hlane time frame hmem
      exact hsound.unreported hlane hmem rfl
  · exact h.transmit sending hready

theorem Timed.quiet (h : ex.Timed txDelay) (hquiet : Quiet ex next) : next.Timed txDelay := by
  refine h.silent hquiet.pace ?_ ?_
  · intro time ticket frame hmem
    rwa [hquiet.timeline] at hmem
  · intro sending hsending
    rw [hquiet.phase] at hsending
    exact .inr ⟨sending, hsending, rfl, CommandQueue.earliest_mono hquiet.phase hquiet.now⟩

theorem Timed.effect (h : ex.Timed txDelay) (hsound : ex.Sound) (heffect : ex.Effect next) :
    next.Timed txDelay := by
  have hsame : ∀ sending, ex.queue.phase.sending? = some sending →
      ∃ before, ex.queue.phase.sending? = some before ∧ before.job = sending.job ∧
        ex.queue.earliest ≤ ex.queue.earliest :=
    fun sending hsending => ⟨sending, hsending, rfl, Nat.le_refl _⟩
  cases heffect with
  | quiet hquiet => exact h.quiet hquiet
  | publish event =>
      refine h.silent ⟨rfl, rfl⟩ ?_ fun sending hsending => .inr (hsame sending hsending)
      intro time ticket frame hmem
      exact (List.mem_append.1 hmem).resolve_right (by simp)
  | @accept job issued coming hopen hcame =>
      refine h.silent ?_ ?_ ?_
      · dsimp only
        rw [CommandQueue.txDelay_append, CommandQueue.lastTx?_append]
        exact ⟨rfl, rfl⟩
      · intro time ticket frame hmem
        exact (List.mem_append.1 hmem).resolve_right (by simp)
      · intro sending hsending
        dsimp only at hsending
        rw [CommandQueue.phase_append] at hsending
        refine .inr ⟨sending, hsending, rfl, CommandQueue.earliest_mono ?_ ?_⟩
        · exact CommandQueue.phase_append _ _
        · have hnow := ({ ex.queue with issued } : CommandQueue).now_append job
          exact Nat.le_of_eq hnow.symm
  | send request hheld =>
      exact h.silent ⟨rfl, rfl⟩ (fun _ _ _ hmem => hmem)
        fun sending hsending => .inr (hsame sending hsending)
  | @refuse job error hcoming hrefusal =>
      have hlog : (ex.queue.conclude job (.error error)).log =
          .done ex.queue.now job.ticket (.error error) :: ex.queue.log := rfl
      refine h.silent ⟨rfl, rfl⟩ ?_ fun sending hsending => .inr (hsame sending hsending)
      intro time ticket frame hmem
      change _ ∈ (ex.note _).timeline at hmem
      rw [timeline_note_cons hlog] at hmem
      exact (List.mem_append.1 hmem).resolve_right (by simp)
  | move hmove =>
      have hboth := note_of_move? (P := fun ex => ex.Sound ∧ ex.Timed txDelay)
        (fun ex next hex hquiet => ⟨hex.1.quiet hquiet, hex.2.quiet hquiet⟩)
        (fun ex next hex hmove => ⟨hex.1.move hmove, hex.2.move hex.1 hmove⟩) ⟨hsound, h⟩ hmove
      exact hboth.2

theorem timed_start (capacity txDelay : Nat) (earlier : List Event) (outlet : Outlet) :
    (start capacity txDelay earlier outlet).Timed txDelay where
  delay := rfl
  last := by
    intro time ticket frame hmem
    obtain ⟨event, _, hevent⟩ := List.mem_map.1 hmem
    cases hevent
  pause := fun _ hnone => nomatch hnone

/-! ## Main result -/

/-- A sending keeps the distance of the line to all before it, and its own pause to those of the
same command.  Any other command that was sent before has got its result since. -/
theorem distance_of_run (capacity txDelay : Nat) (earlier : List Event) (outlet : Outlet)
    (acts : List Act) {early late : List Happening} {time ticket : Nat} {frame : Bytes}
    (htimeline : ((start capacity txDelay earlier outlet).run acts).timeline =
      early ++ .reported (.sent time ticket frame) :: late) :
    (∀ before other sent, .reported (.sent before other sent) ∈ early →
      before + txDelay ≤ time) ∧
    (∃ job, .accepted job ∈ early ∧ job.ticket = ticket) ∧
    (∀ job, .accepted job ∈ early → job.ticket = ticket → job.request.frame = frame ∧
      ∀ before sent, .reported (.sent before ticket sent) ∈ early →
        before + max job.request.retry.pause txDelay ≤ time) ∧
    ∀ first before other sent since, other ≠ ticket →
      early = first ++ .reported (.sent before other sent) :: since →
        ∃ finish result, .reported (.done finish other result) ∈ since := by
  obtain ⟨ex, ⟨hsound, htimed⟩, hmoment⟩ :=
    moment_of_run (P := fun ex => ex.Sound ∧ ex.Timed txDelay)
      (fun ex next hex hmove => ⟨hex.1.move hmove, hex.2.move hex.1 hmove⟩)
      (fun ex next hex heffect => ⟨hex.1.effect heffect, hex.2.effect hex.1 heffect⟩)
      ⟨sound_start capacity txDelay earlier outlet, timed_start capacity txDelay earlier outlet⟩
      htimeline rfl
  obtain ⟨next, hmove, hlog⟩ := hmoment.move
  have hsends := (hmove.picks_or_sends hlog rfl).resolve_left (by simp)
  obtain ⟨sending, hphase, hready, hreport⟩ := hsends
  injection hreport with htime hticket hframe
  subst htime hticket hframe
  obtain rfl := hmoment.timeline
  have hhand : ex.queue.phase.sending? = some sending := by
    rw [hphase]
    rfl
  have hjob : sending.job ∈ ex.queue.unfinished := by
    unfold CommandQueue.unfinished
    rw [CommandQueue.current_of_phase hhand]
    exact List.mem_cons_self
  have haccepted := hsound.accepted_of_unfinished hjob
  refine ⟨fun before other sent hsent => htimed.ready hready hsent, ⟨_, haccepted, rfl⟩, ?_, ?_⟩
  · intro job hmem hticket
    obtain rfl := hsound.accepted_unique haccepted hmem hticket
    refine ⟨rfl, ?_⟩
    intro before sent hsent
    have hdelay := htimed.ready hready hsent
    have hpause := htimed.pause sending hhand before sent hsent
    simp only [CommandQueue.earliest, hphase] at hpause
    omega
  · intro first before other sent since hother hearly
    rw [hearly] at hmoment
    exact hmoment.done_since hsound rfl rfl hother

/-- What comes before the second sending to the lamp. -/
def lampEarly : List Happening :=
  [.accepted ⟨0, lampRequest⟩, .reported (.taken 0 0), .reported (.sent 0 0 lampRequest.frame)]

theorem distance_of_run_lamp :
    ((start 4 0 [] { capacity? := some 1 }).run lampActs).timeline =
      lampEarly ++ .reported (.sent 150 0 lampRequest.frame) ::
        [.published (.stateChanged ⟨"lamp", [], []⟩), .reported (.done 150 0 (.ok 2))] ∧
    ∀ before sent, .reported (.sent before 0 sent) ∈ lampEarly →
      before + max lampRequest.retry.pause 0 ≤ 150 := by
  have htimeline : ((start 4 0 [] { capacity? := some 1 }).run lampActs).timeline =
      lampEarly ++ .reported (.sent 150 0 lampRequest.frame) ::
        [.published (.stateChanged ⟨"lamp", [], []⟩), .reported (.done 150 0 (.ok 2))] := by
    cbv
  have hdistance := (distance_of_run 4 0 [] { capacity? := some 1 } lampActs htimeline).2.2.1
  exact ⟨htimeline, (hdistance ⟨0, lampRequest⟩ List.mem_cons_self rfl).2⟩

/-- A command that is to wait longer than any wait lasts. -/
def patientRequest : SendRequest :=
  { deviceId := "lamp", frame := [0x01], retry := ⟨1, 1000000000000, 5⟩ }

/-- Such a command is sent again before its own wait is over. -/
theorem sent_before_timeout :
    ((start 4 0 [] { capacity? := some 1 }).run
      [.enqueue patientRequest, .move, .pass Clock.longestWait, .move, .pass 5, .move,
        .move]).timeline =
      [.accepted ⟨0, patientRequest⟩, .reported (.taken 0 0), .reported (.sent 0 0 [0x01]),
        .reported (.sent 946080000005 0 [0x01])] ∧
    ¬0 + max (patientRequest.retry.timeout + patientRequest.retry.interval) 0 ≤ 946080000005 := by
  constructor
  · cbv
  · decide

end Exchange

end PanelBus
