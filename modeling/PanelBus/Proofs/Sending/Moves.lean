import PanelBus.Sending.Run
/-!
# The moves of a queue

All that a queue can do in one move, as a relation with a case for each.  A command that is taken up
and sent at once makes two of them.
-/

namespace PanelBus

/-- The command that is being carried out. -/
def Phase.sending? : Phase → Option Sending
  | .idle | .ended => none
  | .pacing sending | .waiting sending _ | .resting sending _ => some sending

namespace CommandQueue

/-- The command at hand. -/
def current (queue : CommandQueue) : List Job :=
  queue.phase.sending?.toList.map fun sending => sending.job

/-- The commands that the queue has taken in and not brought to an end. -/
def unfinished (queue : CommandQueue) : List Job := queue.current ++ queue.high ++ queue.low

/-- The commands that wait in one of the lanes. -/
def lane (queue : CommandQueue) : Priority → List Job
  | .high => queue.high
  | .low => queue.low

/-- The senders whose commands the queue has, or that it has told the result in the turn at hand. -/
def waiting (queue : CommandQueue) : Nat :=
  (queue.unfinished.countP fun job => job.request.attached) + queue.leaving

/-- Takes up a command, but does not send it yet. -/
def pick (queue : CommandQueue) (job : Job) : CommandQueue :=
  { queue with
    phase := .pacing ⟨job, 0, job.request.retry.attempts⟩
    log := .taken queue.now job.ticket :: queue.log }

/-- Has read what is next on the bus. -/
def read (queue : CommandQueue) (events : Subscription) : CommandQueue :=
  { queue with watcher := { queue.watcher with events } }

inductive Move (bus : EventBus) : CommandQueue → CommandQueue → Prop where
  | stop {queue : CommandQueue} (hstopping : queue.stopping = true)
      (hphase : queue.phase ≠ .ended) : Move bus queue (queue.stop queue.current)
  | pickHigh {queue : CommandQueue} {job : Job} {high : List Job}
      (hquiet : queue.stopping = false) (hidle : queue.phase = .idle)
      (hhigh : queue.high = job :: high) : Move bus queue ({ queue with high }.pick job)
  | pickLow {queue : CommandQueue} {job : Job} {low : List Job}
      (hquiet : queue.stopping = false) (hidle : queue.phase = .idle) (hhigh : queue.high = [])
      (hlow : queue.low = job :: low) :
      Move bus queue ({ queue with low, heedsHigh := true }.pick job)
  | transmit {queue : CommandQueue} {sending : Sending}
      (hquiet : queue.stopping = false) (hphase : queue.phase = .pacing sending)
      (hready : queue.ready ≤ queue.now) : Move bus queue (queue.transmit bus sending)
  | ignore {queue : CommandQueue} {sending : Sending} {deadline : Nat} {reading : Reading}
      {events : Subscription} (hquiet : queue.stopping = false)
      (hphase : queue.phase = .waiting sending deadline)
      (hnext : bus.next? queue.watcher.events = some (reading, events))
      (hconfirms : reading.confirms sending.job.request.deviceId = false) :
      Move bus queue (queue.read events)
  | confirm {queue : CommandQueue} {sending : Sending} {deadline : Nat} {reading : Reading}
      {events : Subscription} (hquiet : queue.stopping = false)
      (hphase : queue.phase = .waiting sending deadline)
      (hnext : bus.next? queue.watcher.events = some (reading, events))
      (hconfirms : reading.confirms sending.job.request.deviceId = true) :
      Move bus queue ((queue.read events).finish sending.job (.ok sending.sent))
  | giveUp {queue : CommandQueue} {sending : Sending} {deadline : Nat}
      (hquiet : queue.stopping = false) (hphase : queue.phase = .waiting sending deadline)
      (hnext : bus.next? queue.watcher.events = none) (hdue : deadline ≤ queue.now)
      (hleft : sending.left = 0) :
      Move bus queue
        (queue.finish sending.job (.error (.unconfirmed sending.job.request.retry.total)))
  | rest {queue : CommandQueue} {sending : Sending} {deadline left : Nat}
      (hquiet : queue.stopping = false) (hphase : queue.phase = .waiting sending deadline)
      (hnext : bus.next? queue.watcher.events = none) (hdue : deadline ≤ queue.now)
      (hleft : sending.left = left + 1) :
      Move bus queue
        { queue with
          phase := .resting { sending with left }
            (Clock.after queue.now sending.job.request.retry.interval) }
  | rise {queue : CommandQueue} {sending : Sending} {wake : Nat}
      (hquiet : queue.stopping = false) (hphase : queue.phase = .resting sending wake)
      (hdue : wake ≤ queue.now) : Move bus queue { queue with phase := .pacing sending }

variable {bus : EventBus} {queue next : CommandQueue}

theorem current_of_phase {sending : Sending} (h : queue.phase.sending? = some sending) :
    queue.current = [sending.job] := by
  unfold current
  rw [h]
  rfl

/-- Taking up a command is a move, or two when there is no distance to keep. -/
theorem moves_of_take {picked : CommandQueue} {job : Job}
    (hpick : Move bus queue (picked.pick job)) (hquiet : (picked.pick job).stopping = false) :
    Move bus queue (picked.take bus job) ∨
      ∃ sending, (picked.pick job).phase = .pacing sending ∧
        Move bus queue (picked.pick job) ∧ Move bus (picked.pick job) (picked.take bus job) := by
  cases hlast : picked.lastTx? with
  | some last =>
      have htake : picked.take bus job = picked.pick job := by
        simp only [take, pick, hlast]
      exact .inl (htake ▸ hpick)
  | none =>
      have hready : (picked.pick job).ready ≤ (picked.pick job).now := by
        simp only [ready, pick, hlast]
        exact Nat.le_refl _
      have htake : picked.take bus job =
          (picked.pick job).transmit bus ⟨job, 0, job.request.retry.attempts⟩ := by
        simp only [take, pick, hlast, CommandQueue.transmit]
      refine .inr ⟨_, rfl, hpick, ?_⟩
      rw [htake]
      exact .transmit hquiet rfl hready

theorem move_of_await? {sending : Sending} {deadline : Nat} (hquiet : queue.stopping = false)
    (hphase : queue.phase = .waiting sending deadline)
    (h : queue.await? bus sending deadline = some next) : Move bus queue next := by
  unfold await? at h
  split at h
  · next reading events hnext =>
    injection h with h
    subst h
    by_cases hconfirms : reading.confirms sending.job.request.deviceId
    · rw [if_pos hconfirms]
      exact .confirm hquiet hphase hnext hconfirms
    · rw [if_neg hconfirms]
      exact .ignore hquiet hphase hnext (by simpa using hconfirms)
  · next hnext =>
    split at h
    · next hdue =>
      injection h with h
      subst h
      unfold elapse
      split
      · next hleft => exact .giveUp hquiet hphase hnext hdue hleft
      · next left hleft => exact .rest hquiet hphase hnext hdue hleft
    · cases h

theorem proceed?_of_stopping (hstopping : queue.stopping = true) (hphase : queue.phase ≠ .ended) :
    queue.proceed? bus = some (queue.stop queue.current) := by
  unfold proceed? current
  cases hat : queue.phase with
  | ended => exact absurd hat hphase
  | _ => simp only [hstopping, if_true, Phase.sending?, Option.toList, List.map_cons, List.map_nil]

theorem moves_of_idle (hquiet : queue.stopping = false) (hphase : queue.phase = .idle)
    (h : queue.proceed? bus = some next) :
    Move bus queue next ∨
      ∃ middle sending, middle.phase = .pacing sending ∧ Move bus queue middle ∧
        Move bus middle next := by
  simp only [proceed?, hphase, hquiet, Bool.false_eq_true, if_false] at h
  split at h
  · next job high hhigh =>
    obtain rfl := Option.some.inj h
    rcases moves_of_take (.pickHigh hquiet hphase hhigh) hquiet with hmove | ⟨s, hs, hmoves⟩
    · exact .inl hmove
    · exact .inr ⟨_, s, hs, hmoves⟩
  · next job low hhigh hlow =>
    obtain rfl := Option.some.inj h
    rcases moves_of_take (.pickLow hquiet hphase hhigh hlow) hquiet with hmove | ⟨s, hs, hmoves⟩
    · exact .inl hmove
    · exact .inr ⟨_, s, hs, hmoves⟩
  · cases h

/-- What the queue does when it goes on is one move, or it takes up a command and sends it. -/
theorem moves_of_proceed? (h : queue.proceed? bus = some next) :
    Move bus queue next ∨
      ∃ middle sending, middle.phase = .pacing sending ∧ Move bus queue middle ∧
        Move bus middle next := by
  by_cases hended : queue.phase = .ended
  · simp only [proceed?, hended] at h
    cases h
  by_cases hstopping : queue.stopping = true
  · rw [proceed?_of_stopping hstopping hended] at h
    obtain rfl := Option.some.inj h
    exact .inl (.stop hstopping hended)
  have hquiet : queue.stopping = false := by simpa using hstopping
  cases hphase : queue.phase with
  | ended => exact absurd hphase hended
  | idle => exact moves_of_idle hquiet hphase h
  | pacing sending =>
      simp only [proceed?, hphase, hquiet, Bool.false_eq_true, if_false] at h
      split at h
      · next hready =>
        obtain rfl := Option.some.inj h
        exact .inl (.transmit hquiet hphase hready)
      · cases h
  | waiting sending deadline =>
      simp only [proceed?, hphase, hquiet, Bool.false_eq_true, if_false] at h
      exact .inl (move_of_await? hquiet hphase h)
  | resting sending wake =>
      simp only [proceed?, hphase, hquiet, Bool.false_eq_true, if_false] at h
      split at h
      · next hdue =>
        obtain rfl := Option.some.inj h
        exact .inl (.rise hquiet hphase hdue)
      · cases h

theorem exists_of_move? (h : queue.move? bus = some next) :
    queue.isSpent = false ∧ ∃ moved, queue.proceed? bus = some moved ∧
      next = { moved with spent := queue.spent + 1 } := by
  unfold move? at h
  split at h
  · cases h
  · next hspent =>
    obtain ⟨moved, hmoved, hnext⟩ := Option.map_eq_some_iff.1 h
    exact ⟨by simpa using hspent, moved, hmoved, hnext.symm⟩

/-! ## What a move leaves alone -/

theorem foldl_conclude (jobs : List Job) (queue : CommandQueue) (result : CommandResult) :
    jobs.foldl (fun queue job => queue.conclude job result) queue =
      { queue with
        leaving := queue.leaving + jobs.countP fun job => job.request.attached
        log := (jobs.map fun job => .done queue.now job.ticket result).reverse ++ queue.log } := by
  induction jobs generalizing queue with
  | nil => simp
  | cons job rest ih =>
      rw [List.foldl_cons, ih]
      simp only [conclude, List.countP_cons, List.map_cons, List.reverse_cons, List.append_assoc,
        List.singleton_append]
      congr 1
      omega

theorem stop_eq (queue : CommandQueue) :
    queue.stop queue.current =
      { queue with
        phase := .ended
        high := []
        low := []
        leaving := queue.leaving + queue.unfinished.countP fun job => job.request.attached
        log := (queue.unfinished.map fun job =>
          .done queue.now job.ticket (.error .stopped)).reverse ++ queue.log } := by
  have hconcluded := foldl_conclude queue.unfinished queue (.error .stopped)
  unfold stop
  dsimp only
  unfold unfinished at hconcluded ⊢
  rw [hconcluded]

/-- The reports of a move come before those that there were. -/
theorem Move.exists_log (h : Move bus queue next) : ∃ reports, next.log = reports ++ queue.log := by
  cases h with
  | stop _ _ => exact ⟨_, by rw [stop_eq]⟩
  | pickHigh _ _ _ => exact ⟨[_], rfl⟩
  | pickLow _ _ _ _ => exact ⟨[_], rfl⟩
  | transmit _ _ _ => exact ⟨[_], rfl⟩
  | ignore _ _ _ _ => exact ⟨[], rfl⟩
  | confirm _ _ _ _ => exact ⟨[_], rfl⟩
  | giveUp _ _ _ _ _ => exact ⟨[_], rfl⟩
  | rest _ _ _ _ _ => exact ⟨[], rfl⟩
  | rise _ _ _ => exact ⟨[], rfl⟩

theorem Move.signal_eq (h : Move bus queue next) :
    next.signal = queue.signal ∧ next.watcher.signal = queue.watcher.signal := by
  cases h with
  | stop _ _ =>
      rw [stop_eq]
      exact ⟨rfl, rfl⟩
  | _ => exact ⟨rfl, rfl⟩

theorem Move.now_eq (h : Move bus queue next) : next.now = queue.now := by
  cases h with
  | stop _ _ => rw [stop_eq]
  | _ => rfl

theorem waiting_finish {queue : CommandQueue} {sending : Sending} (result : CommandResult)
    (h : queue.phase.sending? = some sending) :
    (queue.finish sending.job result).waiting = queue.waiting := by
  unfold waiting unfinished
  rw [current_of_phase h]
  simp only [finish, conclude, current, Phase.sending?, Option.toList_none, List.map_nil,
    List.nil_append, List.cons_append, List.countP_cons]
  omega

/-- No sender stops waiting in a move; those that are told the result go at the end of the turn. -/
theorem Move.waiting_eq (h : Move bus queue next) : next.waiting = queue.waiting := by
  cases h with
  | stop _ _ =>
      rw [stop_eq]
      simp only [waiting, unfinished, current, Phase.sending?, Option.toList_none, List.map_nil,
        List.append_nil, List.countP_nil]
      omega
  | pickHigh _ hidle hhigh =>
      simp [waiting, unfinished, current, pick, Phase.sending?, hidle, hhigh]
  | pickLow _ hidle hhigh hlow =>
      simp [waiting, unfinished, current, pick, Phase.sending?, hidle, hhigh, hlow]
  | transmit _ hpacing _ =>
      simp [waiting, unfinished, current, CommandQueue.transmit, Phase.sending?, hpacing]
  | ignore _ _ _ _ => rfl
  | confirm _ hwaiting _ _ =>
      refine waiting_finish _ ?_
      change queue.phase.sending? = _
      rw [hwaiting]
      rfl
  | giveUp _ hwaiting _ _ _ =>
      refine waiting_finish _ ?_
      rw [hwaiting]
      rfl
  | rest _ hwaiting _ _ _ =>
      simp [waiting, unfinished, current, Phase.sending?, hwaiting]
  | rise _ hresting _ =>
      simp [waiting, unfinished, current, Phase.sending?, hresting]

theorem signal_eq_of_proceed? (h : queue.proceed? bus = some next) :
    next.signal = queue.signal ∧ next.watcher.signal = queue.watcher.signal := by
  rcases moves_of_proceed? h with hone | ⟨middle, _, _, hone, htwo⟩
  · exact hone.signal_eq
  · exact ⟨htwo.signal_eq.1.trans hone.signal_eq.1, htwo.signal_eq.2.trans hone.signal_eq.2⟩

theorem log_suffix_of_proceed? (h : queue.proceed? bus = some next) : queue.log <:+ next.log := by
  rcases moves_of_proceed? h with hone | ⟨middle, _, _, hone, htwo⟩
  · obtain ⟨reports, hlog⟩ := hone.exists_log
    exact ⟨reports, hlog.symm⟩
  · obtain ⟨reports, hreports⟩ := hone.exists_log
    obtain ⟨more, hmore⟩ := htwo.exists_log
    exact ⟨more ++ reports, by rw [hmore, hreports, List.append_assoc]⟩

/-! ## A command that comes into its lane -/

section append

variable (queue : CommandQueue) (job : Job)

@[simp] theorem phase_append : (queue.append job).phase = queue.phase := by
  unfold append
  split <;> rfl

@[simp] theorem watcher_append : (queue.append job).watcher = queue.watcher := by
  unfold append
  split <;> rfl

@[simp] theorem signal_append : (queue.append job).signal = queue.signal := by
  unfold append
  split <;> rfl

@[simp] theorem now_append : (queue.append job).now = queue.now := by
  unfold append
  split <;> rfl

@[simp] theorem txDelay_append : (queue.append job).txDelay = queue.txDelay := by
  unfold append
  split <;> rfl

@[simp] theorem lastTx?_append : (queue.append job).lastTx? = queue.lastTx? := by
  unfold append
  split <;> rfl

@[simp] theorem leaving_append : (queue.append job).leaving = queue.leaving := by
  unfold append
  split <;> rfl

@[simp] theorem issued_append : (queue.append job).issued = queue.issued := by
  unfold append
  split <;> rfl

@[simp] theorem log_append : (queue.append job).log = queue.log := by
  unfold append
  split <;> rfl

theorem lanes_append : ((queue.append job).high ++ (queue.append job).low).Perm
    (job :: (queue.high ++ queue.low)) := by
  unfold append
  split
  · rw [List.append_assoc]
    exact List.perm_middle
  · rw [← List.append_assoc]
    exact List.perm_append_singleton _ _

theorem unfinished_append : (queue.append job).unfinished.Perm (job :: queue.unfinished) := by
  unfold unfinished current
  rw [phase_append, List.append_assoc, List.append_assoc]
  exact ((queue.lanes_append job).append_left _).trans List.perm_middle

theorem waiting_append :
    (queue.append job).waiting = queue.waiting + if job.request.attached then 1 else 0 := by
  have hcount := (queue.unfinished_append job).countP_eq fun job => job.request.attached
  rw [List.countP_cons] at hcount
  unfold waiting
  rw [hcount, leaving_append]
  omega

end append

/-! ## Running -/

section running

variable {P : CommandQueue → Prop} (hmove : ∀ queue next, P queue → Move bus queue next → P next)
  (hspent : ∀ queue spent, P queue → P { queue with spent })
  (hturn : ∀ queue, P queue → P queue.endTurn)

include hmove hspent

theorem move?_of (h : P queue) (hnext : queue.move? bus = some next) : P next := by
  obtain ⟨_, moved, hmoved, rfl⟩ := exists_of_move? hnext
  apply hspent
  rcases moves_of_proceed? hmoved with hone | ⟨middle, _, _, hone, htwo⟩
  · exact hmove queue moved h hone
  · exact hmove middle moved (hmove queue middle h hone) htwo

theorem turn_of (h : P queue) : P (queue.turn bus) := by
  fun_induction turn queue bus with
  | case1 queue next hnext ih => exact ih (move?_of hmove hspent h hnext)
  | case2 queue _ => exact h

include hturn

theorem step?_of (h : P queue) (hnext : queue.step? bus = some next) : P next := by
  unfold step? at hnext
  split at hnext
  · next hmoved =>
    obtain rfl := Option.some.inj hnext
    exact move?_of hmove hspent h hmoved
  · split at hnext
    · cases hnext
    · obtain rfl := Option.some.inj hnext
      exact hturn queue h

/-- What moves, ends of turns and time up to the target keep, a queue that runs up to it keeps. -/
theorem runUntil_of {target : Nat}
    (htime : ∀ queue time, P queue → time ≤ target → P { queue with now := max queue.now time })
    (h : P queue) : P (queue.runUntil bus target) := by
  fun_induction runUntil queue bus target with
  | case1 queue next hnext ih =>
      refine ih ?_
      unfold stepBy? at hnext
      split at hnext
      · next hstep =>
        obtain rfl := Option.some.inj hnext
        exact step?_of hmove hspent hturn h hstep
      · split at hnext
        · split at hnext
          · next due _ hdue =>
            exact step?_of hmove hspent hturn (htime queue due h hdue) hnext
          · cases hnext
        · cases hnext
  | case2 queue _ => exact h

end running

theorem log_suffix_runUntil (queue : CommandQueue) (bus : EventBus) (target : Nat) :
    queue.log <:+ (queue.runUntil bus target).log := by
  refine runUntil_of (P := fun later => queue.log <:+ later.log) ?_ (fun _ _ h => h)
    (fun _ h => h) (fun _ _ h _ => h) (List.suffix_refl _)
  intro later next h hmove
  obtain ⟨reports, hlog⟩ := hmove.exists_log
  exact h.trans ⟨reports, hlog.symm⟩

theorem now_runUntil_le {target : Nat} (h : queue.now ≤ target) :
    (queue.runUntil bus target).now ≤ target := by
  refine runUntil_of (P := fun later => later.now ≤ target) ?_ (fun _ _ h => h) (fun _ h => h)
    ?_ h
  · intro later next h hmove
    rw [hmove.now_eq]
    exact h
  · intro later time h htime
    exact Nat.max_le.2 ⟨h, htime⟩

end CommandQueue

end PanelBus
