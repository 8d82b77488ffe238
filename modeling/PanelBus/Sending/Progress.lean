import PanelBus.Sending.Queue
/-!
# Every move takes a queue closer to rest

A queue makes finitely many moves at a time.  Each move lowers the number of moves that its commands
can still need, or keeps that number and reads events; the end of a turn keeps both and clears the
count of the turn.  Main statement: `nearer_of_stepBy?`.
-/

namespace PanelBus

/-- The number of moves that a command needs at most. -/
def Job.work (job : Job) : Nat := 3 * job.request.retry.attempts + 4

/-- The number of moves that waiting commands need at most. -/
def Job.laneWork : List Job → Nat
  | [] => 0
  | job :: rest => job.work + laneWork rest

/-- The number of moves that a phase needs at most to come to its end. -/
def Phase.work : Phase → Nat
  | .ended => 0
  | .idle => 1
  | .pacing sending => 3 * sending.left + 4
  | .waiting sending _ => 3 * sending.left + 3
  | .resting sending _ => 3 * sending.left + 5

namespace CommandQueue

/-- The number of moves that the queue makes at most, reading events apart. -/
def work (queue : CommandQueue) : Nat :=
  queue.phase.work + Job.laneWork queue.high + Job.laneWork queue.low + queue.leaving

/-- Moves left, then events left to read. -/
def Closer (bus : EventBus) (next queue : CommandQueue) : Prop :=
  next.work < queue.work ∨
    next.work = queue.work ∧
      bus.backlog next.watcher.events < bus.backlog queue.watcher.events

theorem leaving_foldl_conclude_le (jobs : List Job) (queue : CommandQueue)
    (result : CommandResult) :
    (jobs.foldl (fun queue job => queue.conclude job result) queue).leaving ≤
      queue.leaving + jobs.length := by
  induction jobs generalizing queue with
  | nil => simp
  | cons job rest ih =>
    have hleaving := ih (queue.conclude job result)
    simp only [conclude] at hleaving
    simp only [List.foldl_cons, List.length_cons]
    refine Nat.le_trans hleaving ?_
    split <;> omega

theorem length_le_laneWork (jobs : List Job) : 4 * jobs.length ≤ Job.laneWork jobs := by
  induction jobs with
  | nil => simp
  | cons job rest ih =>
    simp only [List.length_cons, Job.laneWork, Job.work] at ih ⊢
    omega

theorem work_stop (queue : CommandQueue) (current : List Job) :
    (queue.stop current).work ≤
      queue.leaving + current.length + queue.high.length + queue.low.length := by
  have h := leaving_foldl_conclude_le (current ++ queue.high ++ queue.low) queue (.error .stopped)
  simp only [List.length_append] at h
  simp only [stop, work, Phase.work, Job.laneWork]
  omega

theorem work_stop_current (queue : CommandQueue) (job : Job) (h : 2 ≤ queue.phase.work) :
    (queue.stop [job]).work < queue.work := by
  have hstop := work_stop queue [job]
  have hhigh := length_le_laneWork queue.high
  have hlow := length_le_laneWork queue.low
  simp only [List.length_singleton] at hstop
  simp only [work] at hstop ⊢
  omega

theorem work_finish_le (queue : CommandQueue) (job : Job) (result : CommandResult) :
    (queue.finish job result).work + queue.phase.work ≤ queue.work + 2 := by
  simp only [finish, conclude, work, Phase.work]
  split <;> omega

theorem work_elapse (queue : CommandQueue) (sending : Sending) (deadline : Nat)
    (h : queue.phase = .waiting sending deadline) :
    (queue.elapse sending).work < queue.work := by
  unfold elapse
  split
  · next hleft =>
    have hfinish := work_finish_le queue sending.job
      (.error (.unconfirmed sending.job.request.retry.total))
    have hphase : queue.phase.work = 3 := by simp [h, Phase.work, hleft]
    omega
  · next left hleft =>
    simp only [work, Phase.work, h, hleft]
    omega

theorem closer_of_await? {queue next : CommandQueue} {bus : EventBus} {sending : Sending}
    {deadline : Nat} (hphase : queue.phase = .waiting sending deadline)
    (h : queue.await? bus sending deadline = some next) : Closer bus next queue := by
  unfold await? at h
  split at h
  · next reading events hread =>
    injection h with h
    subst h
    split
    · left
      have hfinish := work_finish_le
        { queue with watcher := { queue.watcher with events } } sending.job (.ok sending.sent)
      have hwork : 3 ≤ queue.phase.work := by simp [hphase, Phase.work]
      simp only [work] at hfinish ⊢
      omega
    · exact Or.inr ⟨rfl, EventBus.backlog_lt_of_next? hread⟩
  · split at h
    · injection h with h
      subst h
      exact Or.inl (work_elapse queue sending deadline hphase)
    · cases h

theorem work_take_le (queue : CommandQueue) (bus : EventBus) (job : Job) :
    (queue.take bus job).work + queue.phase.work ≤ queue.work + job.work := by
  cases hlast : queue.lastTx? <;>
    simp only [take, hlast, transmit, work, Phase.work, Job.work] <;> omega

theorem closer_of_proceed? {queue next : CommandQueue} {bus : EventBus}
    (h : queue.proceed? bus = some next) : Closer bus next queue := by
  unfold proceed? at h
  split at h
  · cases h
  · next hphase =>
    split at h
    · injection h with h
      subst h
      left
      have hstop := work_stop queue []
      have hhigh := length_le_laneWork queue.high
      have hlow := length_le_laneWork queue.low
      simp only [List.length_nil] at hstop
      simp only [work, hphase, Phase.work] at hstop ⊢
      omega
    · split at h
      · next job high hhigh =>
        injection h with h
        subst h
        left
        have htake := work_take_le { queue with high } bus job
        simp only [work, hphase, hhigh, Phase.work, Job.laneWork] at htake ⊢
        omega
      · next job low hhigh hlow =>
        injection h with h
        subst h
        left
        have htake := work_take_le { queue with high := [], low, heedsHigh := true } bus job
        simp only [work, hphase, hhigh, hlow, Phase.work, Job.laneWork] at htake ⊢
        omega
      · cases h
  · next sending hphase =>
    split at h
    · injection h with h
      subst h
      exact Or.inl (work_stop_current queue _ (by simp [hphase, Phase.work]))
    · split at h
      · injection h with h
        subst h
        left
        simp only [transmit, work, hphase, Phase.work]
        omega
      · cases h
  · next sending deadline hphase =>
    split at h
    · injection h with h
      subst h
      exact Or.inl (work_stop_current queue _ (by simp [hphase, Phase.work]))
    · exact closer_of_await? hphase h
  · next sending wake hphase =>
    split at h
    · injection h with h
      subst h
      exact Or.inl (work_stop_current queue _ (by simp [hphase, Phase.work]))
    · split at h
      · injection h with h
        subst h
        left
        simp only [work, hphase, Phase.work]
        omega
      · cases h

theorem closer_of_move? {queue next : CommandQueue} {bus : EventBus}
    (h : queue.move? bus = some next) : Closer bus next queue := by
  unfold move? at h
  split at h
  · cases h
  · obtain ⟨moved, hmoved, rfl⟩ := Option.map_eq_some_iff.1 h
    have hcloser := closer_of_proceed? hmoved
    simpa only [Closer, work] using hcloser

theorem spent_of_move? {queue next : CommandQueue} {bus : EventBus}
    (h : queue.move? bus = some next) : queue.spent < next.spent ∧ queue.spent < turnLength := by
  unfold move? at h
  split at h
  · cases h
  · next hspent =>
    obtain ⟨moved, _, rfl⟩ := Option.map_eq_some_iff.1 h
    simp only [isSpent, decide_eq_true_eq, Nat.not_le] at hspent
    exact ⟨Nat.lt_succ_self _, hspent⟩

/-- Moves left, then events left to read, then moves made in the turn at hand. -/
def Nearer (bus : EventBus) (next queue : CommandQueue) : Prop :=
  Closer bus next queue ∨
    next.work = queue.work ∧ next.watcher.events = queue.watcher.events ∧
      next.spent < queue.spent

theorem work_endTurn (queue : CommandQueue) : queue.endTurn.work + queue.leaving = queue.work := by
  simp only [endTurn, work]
  omega

theorem nearer_of_step? {queue next : CommandQueue} {bus : EventBus}
    (h : queue.step? bus = some next) : Nearer bus next queue := by
  unfold step? at h
  split at h
  · next hmove =>
    injection h with h
    subst h
    exact Or.inl (closer_of_move? hmove)
  · split at h
    · cases h
    · next hrest =>
      injection h with h
      subst h
      have hwork := work_endTurn queue
      by_cases hleaving : queue.leaving = 0
      · refine Or.inr ⟨by omega, rfl, ?_⟩
        change 0 < queue.spent
        omega
      · exact Or.inl (Or.inl (by omega))

theorem nearer_of_stepBy? {queue next : CommandQueue} {bus : EventBus} {target : Nat}
    (h : queue.stepBy? bus target = some next) : Nearer bus next queue := by
  unfold stepBy? at h
  split at h
  · next hstep =>
    injection h with h
    subst h
    exact nearer_of_step? hstep
  · split at h
    · split at h
      · have hnearer := nearer_of_step? h
        simpa only [Nearer, Closer, work] using hnearer
      · cases h
    · cases h

end CommandQueue

end PanelBus
