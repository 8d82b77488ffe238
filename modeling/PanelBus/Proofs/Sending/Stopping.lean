import PanelBus.Proofs.Sending.Moments
import PanelBus.Proofs.Sending.Owed
import PanelBus.Proofs.Sending.Turns
/-!
# The end of a queue

A queue is told to stop when the signal is raised or when nobody holds it any more.  From then on it
sends nothing and takes no command in; it ends with its next turn, and by then every command that it
has taken in has its result.
-/

namespace PanelBus

/-- What can still happen around a queue that was told to stop: events are published, and commands
get the result that they were stopped. -/
def Happening.Closing : Happening → Prop
  | .published _ => True
  | .reported (.done _ _ result) => result = .error .stopped
  | .accepted _ | .reported _ => False

namespace CommandQueue

variable {bus : EventBus} {queue next : CommandQueue}

theorem stopping_endTurn (h : queue.stopping = true) : queue.endTurn.stopping = true := by
  by_contra hquiet
  rw [Bool.not_eq_true] at hquiet
  rw [stopping_of_endTurn hquiet] at h
  cases h

theorem Move.stopping_eq (h : Move bus queue next) : next.stopping = queue.stopping := by
  unfold stopping
  rw [h.signal_eq.1, h.signal_eq.2]

theorem stepBy?_runUntil (queue : CommandQueue) (bus : EventBus) (target : Nat) :
    (queue.runUntil bus target).stepBy? bus target = none := by
  fun_induction CommandQueue.runUntil queue bus target with
  | case1 queue next hstep ih => exact ih
  | case2 queue hstep => exact hstep

/-- A queue that has been told to stop and has nothing to do any more has ended. -/
theorem phase_of_stopping (hstopping : queue.stopping = true) (hstep : queue.step? bus = none) :
    queue.phase = .ended := by
  by_contra hphase
  have hproceed : queue.proceed? bus = _ := proceed?_of_stopping hstopping hphase
  unfold step? move? at hstep
  rw [hproceed] at hstep
  split at hstep
  · cases hstep
  · next hmove =>
    -- Either the turn has no move left and can end, or there was a move.
    split at hmove
    · next hspent =>
      split at hstep
      · next hnothing =>
        have hlength : turnLength ≤ queue.spent := by simpa [isSpent] using hspent
        rw [hnothing.2] at hlength
        cases hlength
      · cases hstep
    · cases hmove

theorem phase_settle (h : queue.stopping = true) : (queue.settle bus).phase = .ended := by
  have hend := queue.stepBy?_runUntil bus queue.now
  have hstopping : (queue.runUntil bus queue.now).stopping = true :=
    runUntil_of (P := fun queue => queue.stopping = true)
      (fun queue next h hmove => hmove.stopping_eq.trans h) (fun _ _ h => h)
      (fun _ h => stopping_endTurn h) (fun _ _ h _ => h) h
  have hstep : (queue.runUntil bus queue.now).step? bus = none := by
    unfold stepBy? at hend
    split at hend
    · cases hend
    · next hstep => exact hstep
  have hended := phase_of_stopping hstopping hstep
  exact hended

/-- Nothing waits at a queue that has ended. -/
def Cleared (queue : CommandQueue) : Prop := queue.phase = .ended → queue.high = [] ∧ queue.low = []

theorem Move.cleared (h : Move bus queue next) : next.Cleared := by
  intro hended
  cases h with
  | stop _ _ => exact ⟨rfl, rfl⟩
  | ignore _ hphase _ _ =>
      change queue.phase = _ at hended
      rw [hphase] at hended
      cases hended
  | _ => cases hended

theorem of_refusal?_eq_none (h : queue.refusal? = none) :
    queue.signal.raised = false ∧ queue.phase ≠ .ended := by
  unfold refusal? at h
  split at h
  · cases h
  · next hraised =>
    split at h
    · cases h
    · next hended => exact ⟨by simpa using hraised, by simpa [hasEnded] using hended⟩

theorem refusal?_of_raised (h : queue.signal.raised = true) : queue.refusal? = some .stopped := by
  unfold refusal?
  rw [if_pos h]

end CommandQueue

namespace Exchange

variable {ex next : Exchange}

/-! ## Who holds the queue -/

/-- Those who come wait for a result.  They hold the queue, with those who wait already and some
others. -/
structure Held (ex : Exchange) : Prop where
  queue : ∃ free, ex.queue.Held (ex.coming.length + free)
  attached : ∀ job ∈ ex.coming, job.request.attached = true

theorem Held.holders_ne_zero (h : ex.Held) {job : Job} (hjob : job ∈ ex.coming) :
    ex.queue.signal.holders ≠ 0 := by
  obtain ⟨free, hqueue⟩ := h.queue
  have hlength := List.length_pos_of_mem hjob
  unfold CommandQueue.Held at hqueue
  omega

theorem Held.enqueue (h : ex.Held) (request : SendRequest) : (ex.step (.enqueue request)).Held := by
  obtain ⟨free, hqueue⟩ := h.queue
  have hafter : (ex.queue.enqueue { request with attached := false }).2.Held _ :=
    hqueue.enqueue rfl
  simp only [step]
  split
  · exact h
  · split
    · next queue hresult =>
      rw [hresult] at hafter
      exact ⟨⟨free, hafter⟩, h.attached⟩
    · exact h

theorem Held.send (h : ex.Held) (request : SendRequest) : (ex.step (.send request)).Held := by
  obtain ⟨free, hqueue⟩ := h.queue
  simp only [step]
  split
  · exact h
  · refine ⟨⟨free, ?_⟩, ?_⟩
    · have hbefore : ex.queue.signal.holders = ex.queue.waiting + _ := hqueue
      change ex.queue.signal.holders + 1 = ex.queue.waiting + _
      rw [List.length_append, List.length_singleton]
      omega
    · intro job hjob
      rcases List.mem_append.1 hjob with hjob | hjob
      · exact h.attached job hjob
      · rw [List.mem_singleton.1 hjob]

theorem Held.deliver (h : ex.Held) (job : Job) : (ex.step (.deliver job)).Held := by
  obtain ⟨free, hqueue⟩ := h.queue
  simp only [step]
  split
  · next hjob =>
    have hlength : ex.coming.length = (ex.coming.erase job).length + 1 := by
      rw [List.length_erase_of_mem hjob]
      have hpos := List.length_pos_of_mem hjob
      omega
    have hmore : ex.queue.Held (((ex.coming.erase job).length + free) + 1) := by
      rw [hlength] at hqueue
      rwa [Nat.add_right_comm]
    have hafter := hmore.deliver (h.attached job hjob)
    have hattached : ∀ other ∈ ex.coming.erase job, other.request.attached = true :=
      fun other hother => h.attached other (List.mem_of_mem_erase hother)
    split
    · exact ⟨⟨free, hafter⟩, hattached⟩
    · exact ⟨⟨free, hafter⟩, hattached⟩
  · exact h

theorem Held.step (h : ex.Held) (act : Act) : (ex.step act).Held := by
  obtain ⟨free, hqueue⟩ := h.queue
  cases act with
  | enqueue request => exact h.enqueue request
  | send request => exact h.send request
  | deliver job => exact h.deliver job
  | shutdown =>
      simp only [Exchange.step]
      split
      · exact h
      · exact ⟨⟨free, hqueue⟩, h.attached⟩
  | share =>
      simp only [Exchange.step]
      split
      · exact h
      · refine ⟨⟨free + 1, ?_⟩, h.attached⟩
        exact congrArg (· + 1) hqueue
  | release =>
      simp only [Exchange.step]
      split
      · next hfree =>
        refine ⟨⟨free - 1, ?_⟩, h.attached⟩
        unfold CommandQueue.Held at hqueue
        unfold engaged at hfree
        change ex.queue.signal.holders - 1 = ex.queue.waiting + (ex.coming.length + (free - 1))
        omega
      · exact h
  | move =>
      simp only [Exchange.step]
      split
      · next moved hmove =>
        refine ⟨⟨free, ?_⟩, h.attached⟩
        exact CommandQueue.move?_of (P := fun queue => queue.Held (ex.coming.length + free))
          (fun _ _ h hmove => h.move hmove) (fun _ _ h => h) hqueue hmove
      · exact h
  | endTurn => exact ⟨⟨free, hqueue.endTurn⟩, h.attached⟩
  | publish event | pass ms | receive | close => exact ⟨⟨free, hqueue⟩, h.attached⟩

theorem held_start (capacity txDelay : Nat) (earlier : List Event) (outlet : Outlet) :
    (start capacity txDelay earlier outlet).Held := ⟨⟨1, rfl⟩, fun _ hnone => nomatch hnone⟩

/-! ## A queue that was told to stop -/

/-- The signal was raised, or nobody can raise it any more. -/
def Told (ex : Exchange) : Prop := ex.queue.signal.raised = true ∨ ex.queue.signal.holders = 0

/-- Those who come hold the queue; it has seen no raising of the signal, and nothing waits in its
lanes when it has ended. -/
structure Alert (ex : Exchange) : Prop where
  held : ex.Held
  unseen : ex.queue.watcher.signal.raisings = 0
  cleared : ex.queue.Cleared

theorem Told.stopping (h : ex.Told) (halert : ex.Alert) : ex.queue.stopping = true := by
  by_contra hquiet
  rw [Bool.not_eq_true, CommandQueue.stopping_eq_false_iff, halert.unseen] at hquiet
  rcases h with hraised | hnobody
  · simp [StopSignal.raised, hquiet.1] at hraised
  · exact hquiet.2 hnobody

theorem Told.of_signal (h : ex.Told) (hsignal : next.queue.signal = ex.queue.signal) :
    next.Told := by
  unfold Told
  rw [hsignal]
  exact h

theorem Told.quiet (h : ex.Told) (hquiet : Quiet ex next) : next.Told := by
  refine h.imp ?_ hquiet.holders
  intro hraised
  have hle := hquiet.raisings
  simp only [StopSignal.raised, ne_eq, decide_not, Bool.not_eq_true', decide_eq_false_iff_not]
    at hraised ⊢
  omega

theorem Told.effect (h : ex.Told) (heffect : ex.Effect next) : next.Told := by
  cases heffect with
  | quiet hquiet => exact h.quiet hquiet
  | publish event => exact h
  | accept hopen hcame => exact h.of_signal (CommandQueue.signal_append _ _)
  | send request hheld => exact .inl (h.resolve_right hheld)
  | refuse hcoming hrefusal => exact h
  | move hmove =>
      exact note_of_move? (P := Told) (fun ex next hex hquiet => Told.quiet hex hquiet)
        (fun ex next hex hmove => Told.of_signal hex hmove.signal_eq.1) h hmove

theorem Told.run (h : ex.Told) (acts : List Act) : (ex.run acts).Told :=
  run_of (P := Told) (fun ex act hex => Told.effect hex (ex.step_effect act)) ex h acts

theorem told_of_shutdown {acts : List Act} (h : .shutdown ∈ acts) : (ex.run acts).Told := by
  obtain ⟨first, rest, rfl⟩ := List.append_of_mem h
  have hnow : ((ex.run first).step .shutdown).Told := by
    simp only [step]
    split
    · next hnobody => exact .inr hnobody
    · exact .inl rfl
  rw [run_append]
  exact hnow.run rest

theorem unseen_effect (h : ex.queue.watcher.signal.raisings = 0) (heffect : ex.Effect next) :
    next.queue.watcher.signal.raisings = 0 := by
  cases heffect with
  | quiet hquiet =>
      rw [hquiet.watcher]
      exact h
  | publish event => exact h
  | accept hopen hcame =>
      dsimp only
      rw [CommandQueue.watcher_append]
      exact h
  | send request hheld => exact h
  | refuse hcoming hrefusal => exact h
  | move hmove =>
      obtain ⟨_, moved, hmoved, rfl⟩ := CommandQueue.exists_of_move? hmove
      obtain ⟨_, hwatcher⟩ := CommandQueue.signal_eq_of_proceed? hmoved
      change moved.watcher.signal.raisings = 0
      rw [hwatcher]
      exact h

theorem cleared_quiet (h : ex.queue.Cleared) (hquiet : Quiet ex next) : next.queue.Cleared := by
  intro hended
  rw [hquiet.phase] at hended
  rw [hquiet.lanes.1, hquiet.lanes.2]
  exact h hended

theorem cleared_effect (h : ex.queue.Cleared) (heffect : ex.Effect next) :
    next.queue.Cleared := by
  cases heffect with
  | quiet hquiet => exact cleared_quiet h hquiet
  | publish event => exact h
  | accept hopen hcame =>
      intro hended
      dsimp only at hended
      rw [CommandQueue.phase_append] at hended
      exact absurd hended (CommandQueue.of_refusal?_eq_none hopen).2
  | send request hheld => exact h
  | refuse hcoming hrefusal => exact h
  | move hmove =>
      exact note_of_move? (P := fun ex => ex.queue.Cleared)
        (fun ex next hex hquiet => cleared_quiet hex hquiet)
        (fun ex next _ hmove => hmove.cleared) h hmove

theorem Alert.step (h : ex.Alert) (act : Act) : (ex.step act).Alert :=
  ⟨h.held.step act, unseen_effect h.unseen (ex.step_effect act),
    cleared_effect h.cleared (ex.step_effect act)⟩

theorem alert_run (capacity txDelay : Nat) (earlier : List Event) (outlet : Outlet)
    (acts : List Act) : ((start capacity txDelay earlier outlet).run acts).Alert := by
  refine run_of (P := Alert) (fun ex act hex => hex.step act) _ ?_ acts
  exact ⟨held_start capacity txDelay earlier outlet, rfl, fun hended => nomatch hended⟩

/-! ## What still happens then -/

/-- From the one to the other nothing was accepted, taken up or sent. -/
def Hushed (ex next : Exchange) : Prop :=
  ∃ rest, next.timeline = ex.timeline ++ rest ∧ ∀ happening ∈ rest, happening.Closing

theorem Hushed.trans {later : Exchange} (h : ex.Hushed next) (hlater : next.Hushed later) :
    ex.Hushed later := by
  obtain ⟨rest, htimeline, hrest⟩ := h
  obtain ⟨more, hmore, hclosing⟩ := hlater
  refine ⟨rest ++ more, by rw [hmore, htimeline, List.append_assoc], ?_⟩
  intro happening hmem
  exact (List.mem_append.1 hmem).elim (hrest happening) (hclosing happening)

theorem Hushed.of_eq (h : next.timeline = ex.timeline) : ex.Hushed next :=
  ⟨[], h.trans (List.append_nil _).symm, fun _ hnone => nomatch hnone⟩

theorem Hushed.of_singleton {happening : Happening}
    (h : next.timeline = ex.timeline ++ [happening]) (hclosing : happening.Closing) :
    ex.Hushed next := by
  refine ⟨[happening], h, ?_⟩
  intro other hother
  rw [List.mem_singleton.1 hother]
  exact hclosing

theorem hushed_stop (ex : Exchange) : ex.Hushed (ex.note (ex.queue.stop ex.queue.current)) := by
  rw [CommandQueue.stop_eq]
  refine ⟨_, timeline_note rfl, ?_⟩
  intro happening hmem
  rw [List.reverse_reverse, List.map_map] at hmem
  obtain ⟨job, _, rfl⟩ := List.mem_map.1 hmem
  rfl

theorem Told.hushed (h : ex.Told) (halert : ex.Alert) (heffect : ex.Effect next) :
    ex.Hushed next := by
  cases heffect with
  | quiet hquiet => exact .of_eq hquiet.timeline
  | publish event => exact .of_singleton rfl trivial
  | accept hopen hcame =>
      have hraised := (CommandQueue.of_refusal?_eq_none hopen).1
      have hnobody : ex.queue.signal.holders = 0 := h.resolve_left (by simp [hraised])
      rcases hcame with ⟨hheld, _⟩ | ⟨hcoming, _⟩
      · exact absurd hnobody hheld
      · exact absurd hnobody (halert.held.holders_ne_zero hcoming)
  | send request hheld => exact .of_eq rfl
  | @refuse job error hcoming hrefusal =>
      have hraised := h.resolve_right (halert.held.holders_ne_zero hcoming)
      rw [CommandQueue.refusal?_of_raised hraised] at hrefusal
      obtain rfl := Option.some.inj hrefusal
      have hlog : (ex.queue.conclude job (.error .stopped)).log =
          .done ex.queue.now job.ticket (.error .stopped) :: ex.queue.log := rfl
      exact .of_singleton (timeline_note_cons hlog) rfl
  | move hmove =>
      obtain ⟨_, moved, hmoved, rfl⟩ := CommandQueue.exists_of_move? hmove
      have hphase : ex.queue.phase ≠ .ended := by
        intro hended
        simp [CommandQueue.proceed?, hended] at hmoved
      rw [CommandQueue.proceed?_of_stopping (h.stopping halert) hphase] at hmoved
      obtain rfl := Option.some.inj hmoved
      have hstop := ex.hushed_stop
      exact hstop

theorem Told.hushed_run (h : ex.Told) (halert : ex.Alert) (acts : List Act) :
    ex.Hushed (ex.run acts) := by
  have hrun : (ex.run acts).Told ∧ (ex.run acts).Alert ∧ ex.Hushed (ex.run acts) := by
    refine run_of (P := fun later => later.Told ∧ later.Alert ∧ ex.Hushed later) ?_ ex
      ⟨h, halert, .of_eq rfl⟩ acts
    rintro later act ⟨htold, halert, hhushed⟩
    have heffect := later.step_effect act
    exact ⟨htold.effect heffect, halert.step act, hhushed.trans (htold.hushed halert heffect)⟩
  exact hrun.2.2

/-! ## Main result -/

/-- When a queue has ended, every command that was accepted has the result that it earned. -/
theorem Sound.finished (h : ex.Sound) (hcleared : ex.queue.Cleared)
    (hended : ex.queue.phase = .ended) {job : Job} (hjob : .accepted job ∈ ex.timeline) :
    ∃ taken sendings result,
      story job.ticket ex.timeline = job.request.course taken sendings (some result) ∧
        job.request.Earns sendings result := by
  have hmem := accepted_mem_story hjob
  have hover : Over (story job.ticket ex.timeline) := by
    refine h.ledger.finished _ (h.ledger.lt_issued hmem) ?_
    intro entry hentry hticket
    rcases List.mem_append.1 hentry with hcoming | hqueue
    · have hstory := (h.ledger.told _ hentry).2
      obtain ⟨other, _, rfl⟩ := List.mem_map.1 hcoming
      rw [hticket] at hstory
      rw [hstory] at hmem
      cases hmem
    · obtain ⟨hhigh, hlow⟩ := hcleared hended
      simp [CommandQueue.entries, hended, hhigh, hlow, Phase.sending?] at hqueue
  rcases hover with ⟨error, hstory⟩ | ⟨request, taken, sendings, result, hstory, hearns⟩
  · rw [hstory] at hmem
    simp at hmem
  · rw [hstory] at hmem
    obtain rfl := eq_of_accepted_mem_course hmem
    exact ⟨taken, sendings, result, hstory, hearns⟩

/-- A result that a command gets of a queue that was told to stop is that it was stopped. -/
theorem Hushed.stopped (h : ex.Hushed next) {ticket : Nat} {result : CommandResult}
    (hlast : (story ticket next.timeline).getLast? = some (.done result)) :
    result = .error .stopped ∨ story ticket ex.timeline = story ticket next.timeline := by
  obtain ⟨rest, htimeline, hrest⟩ := h
  rw [htimeline, story_append] at hlast ⊢
  cases hsince : story ticket rest with
  | nil => exact .inr (List.append_nil _).symm
  | cons deed deeds =>
      left
      rw [List.getLast?_append_of_ne_nil _ (by simp [hsince])] at hlast
      obtain ⟨time, hmem⟩ := done_of_mem_story (List.mem_of_getLast? hlast)
      exact hrest _ hmem

/-- Once a queue has been told to stop nothing is sent any more, whoever still holds it has his
commands refused, and it ends with its next turn.  When it has ended, every command that was ever
accepted has one result: that it was stopped, unless it had its result before. -/
theorem stopping_of_told (capacity txDelay : Nat) (earlier : List Event) (outlet : Outlet)
    (acts more : List Act) :
    let ex := (start capacity txDelay earlier outlet).run acts
    let later := ex.run more
    (.shutdown ∈ acts ∨ ex.queue.signal.holders = 0 →
      ex.Hushed later ∧
      (later.queue.signal.holders ≠ 0 → ∀ request,
        (later.queue.enqueue request).1 = .error .stopped) ∧
      (later.queue.settle later.bus).phase = .ended) ∧
    (later.queue.phase = .ended → ∀ job, .accepted job ∈ later.timeline →
      ∃ taken sendings result,
        story job.ticket later.timeline = job.request.course taken sendings (some result) ∧
        job.request.Earns sendings result ∧
        (.shutdown ∈ acts ∨ ex.queue.signal.holders = 0 →
          result = .error .stopped ∨
            story job.ticket ex.timeline = story job.ticket later.timeline)) := by
  intro ex later
  have halert : ex.Alert := alert_run capacity txDelay earlier outlet acts
  have hlater : later = (start capacity txDelay earlier outlet).run (acts ++ more) :=
    (run_append _ _ _).symm
  have halertLater : later.Alert := hlater ▸ alert_run capacity txDelay earlier outlet _
  have hsound : later.Sound := hlater ▸ sound_run capacity txDelay earlier outlet _
  have htold : .shutdown ∈ acts ∨ ex.queue.signal.holders = 0 → ex.Told := by
    rintro (hshutdown | hnobody)
    · exact told_of_shutdown hshutdown
    · exact .inr hnobody
  refine ⟨?_, ?_⟩
  · intro hstop
    have htoldLater : later.Told := (htold hstop).run more
    refine ⟨(htold hstop).hushed_run halert more, ?_,
      CommandQueue.phase_settle (htoldLater.stopping halertLater)⟩
    intro hheld request
    unfold CommandQueue.enqueue
    rw [CommandQueue.refusal?_of_raised (htoldLater.resolve_right hheld)]
  · intro hended job hjob
    obtain ⟨taken, sendings, result, hstory, hearns⟩ :=
      hsound.finished halertLater.cleared hended hjob
    refine ⟨taken, sendings, result, hstory, hearns, ?_⟩
    intro hstop
    refine ((htold hstop).hushed_run halert more).stopped ?_
    rw [hstory, ← course_done]
    exact List.getLast?_concat

example : ((start 4 0 [] { capacity? := some 1 }).run
    [.enqueue lampRequest, .move, .enqueue lampRequest, .shutdown, .enqueue lampRequest, .pass 100,
      .move]).timeline =
    [.accepted ⟨0, lampRequest⟩, .reported (.taken 0 0), .reported (.sent 0 0 lampRequest.frame),
      .accepted ⟨1, lampRequest⟩, .reported (.done 100 0 (.error .stopped)),
      .reported (.done 100 1 (.error .stopped))] := by
  cbv

end Exchange

end PanelBus
