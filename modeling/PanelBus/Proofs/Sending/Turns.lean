import PanelBus.Sending.Run
import PanelBus.Proofs.Sending.Exchange
/-!
# Turns of a queue as acts of an exchange

All that a running queue does, up to some time, are acts of an exchange in some order.  Those who
wait for a result hold the queue as long as they wait.
-/

namespace PanelBus

namespace CommandQueue

variable {bus : EventBus} {queue next : CommandQueue}

/-! ## Who holds the queue -/

/-- So many others hold the queue. -/
def Held (queue : CommandQueue) (others : Nat) : Prop :=
  queue.signal.holders = queue.waiting + others

theorem Held.holders_ne_zero (h : queue.Held 1) : queue.signal.holders ≠ 0 := by
  unfold Held at h
  omega

theorem Held.move {others : Nat} (h : queue.Held others) (hmove : Move bus queue next) :
    next.Held others := by
  unfold Held
  rw [hmove.signal_eq.1, hmove.waiting_eq]
  exact h

theorem Held.endTurn {others : Nat} (h : queue.Held others) : queue.endTurn.Held others := by
  unfold Held at h ⊢
  change queue.signal.holders - queue.leaving =
    (queue.unfinished.countP fun job => job.request.attached) + 0 + others
  rw [h, waiting]
  omega

theorem Held.turn {others : Nat} (h : queue.Held others) (bus : EventBus) :
    (queue.turn bus).Held others :=
  turn_of (P := fun queue => queue.Held others) (fun _ _ h hmove => h.move hmove)
    (fun _ _ h => h) h

theorem Held.runUntil {others : Nat} (h : queue.Held others) (target : Nat) :
    (queue.runUntil bus target).Held others :=
  runUntil_of (P := fun queue => queue.Held others) (fun _ _ h hmove => h.move hmove)
    (fun _ _ h => h) (fun _ h => h.endTurn) (fun _ _ h _ => h) h

theorem Held.settle {others : Nat} (h : queue.Held others) : (queue.settle bus).Held others :=
  (h.runUntil queue.now).endTurn

theorem Held.advance {others : Nat} (h : queue.Held others) (ms : Nat) :
    (queue.advance bus ms).Held others :=
  (h.runUntil (queue.now + ms)).endTurn

/-- Nobody waits for a command that is put in at once. -/
theorem Held.enqueue {others : Nat} (h : queue.Held others) {request : SendRequest}
    (hattached : request.attached = false) : (queue.enqueue request).2.Held others := by
  unfold CommandQueue.enqueue
  split
  · exact h
  · unfold Held at h ⊢
    dsimp only
    rw [signal_append, waiting_append]
    simp only [hattached, Bool.false_eq_true, if_false, Nat.add_zero]
    exact h

/-- A sender that has its turn waits, or has its result already. -/
theorem Held.deliver {others : Nat} (h : queue.Held (others + 1)) {job : Job}
    (hattached : job.request.attached = true) : (queue.deliver job).Held others := by
  unfold CommandQueue.deliver
  unfold Held at h ⊢
  split
  · next error hrefusal =>
    change queue.signal.holders = (queue.unfinished.countP fun job => job.request.attached) +
      (queue.leaving + if job.request.attached then 1 else 0) + others
    rw [h, waiting, if_pos hattached]
    omega
  · rw [signal_append, waiting_append, if_pos hattached, h]
    omega

theorem Held.deliverAll {others : Nat} {jobs : List Job}
    (h : queue.Held (jobs.length + others))
    (hattached : ∀ job ∈ jobs, job.request.attached = true) :
    (jobs.foldl CommandQueue.deliver queue).Held others := by
  induction jobs generalizing queue with
  | nil => exact Nat.zero_add others ▸ h
  | cons job rest ih =>
      have hfirst : queue.Held ((rest.length + others) + 1) := by
        have hlength : (job :: rest).length + others = (rest.length + others) + 1 := by
          rw [List.length_cons]
          omega
        rwa [hlength] at h
      exact ih (hfirst.deliver (hattached job List.mem_cons_self))
        fun other hother => hattached other (List.mem_cons_of_mem _ hother)

end CommandQueue

namespace Exchange

/-- The exchange is about this bus, this queue and these senders that have not had their turn. -/
structure Carries (ex : Exchange) (bus : EventBus) (queue : CommandQueue) (coming : List Job) :
    Prop where
  bus : ex.bus = bus
  queue : ex.queue = queue
  coming : ex.coming = coming

/-- Some acts lead there. -/
def Leads (ex : Exchange) (bus : EventBus) (queue : CommandQueue) (coming : List Job) : Prop :=
  ∃ acts, (ex.run acts).Carries bus queue coming

variable {ex : Exchange} {bus bus' : EventBus} {queue queue' next : CommandQueue}
  {coming coming' : List Job}

theorem Carries.leads (h : ex.Carries bus queue coming) : ex.Leads bus queue coming := ⟨[], h⟩

theorem Carries.leads_of_step (act : Act) (h : (ex.step act).Carries bus queue coming) :
    ex.Leads bus queue coming := ⟨[act], h⟩

theorem Leads.trans (h : ex.Leads bus queue coming)
    (hnext : ∀ ex : Exchange, ex.Carries bus queue coming → ex.Leads bus' queue' coming') :
    ex.Leads bus' queue' coming' := by
  obtain ⟨acts, hcarries⟩ := h
  obtain ⟨more, hmore⟩ := hnext _ hcarries
  exact ⟨acts ++ more, by rwa [run_append]⟩

/-! ## Turns of the queue -/

theorem Carries.move? (h : ex.Carries bus queue coming) (hmove : queue.move? bus = some next) :
    ex.Leads bus next coming := by
  obtain ⟨rfl, rfl, rfl⟩ := h
  refine Carries.leads_of_step .move ?_
  simp only [step, hmove]
  exact ⟨rfl, rfl, rfl⟩

theorem Carries.endTurn (h : ex.Carries bus queue coming) : ex.Leads bus queue.endTurn coming := by
  obtain ⟨rfl, rfl, rfl⟩ := h
  exact Carries.leads_of_step .endTurn ⟨rfl, rfl, rfl⟩

theorem Carries.pass (h : ex.Carries bus queue coming) {time : Nat} (hle : queue.now ≤ time) :
    ex.Leads bus { queue with now := time } coming := by
  obtain ⟨rfl, rfl, rfl⟩ := h
  refine Carries.leads_of_step (.pass (time - ex.queue.now)) ⟨rfl, ?_, rfl⟩
  simp only [step, Nat.add_sub_cancel' hle]

theorem Carries.step? (h : ex.Carries bus queue coming) (hstep : queue.step? bus = some next) :
    ex.Leads bus next coming := by
  unfold CommandQueue.step? at hstep
  split at hstep
  · next hmove =>
    obtain rfl := Option.some.inj hstep
    exact h.move? hmove
  · split at hstep
    · cases hstep
    · obtain rfl := Option.some.inj hstep
      exact h.endTurn

theorem Carries.stepBy? (h : ex.Carries bus queue coming) {target : Nat}
    (hstep : queue.stepBy? bus target = some next) : ex.Leads bus next coming := by
  unfold CommandQueue.stepBy? at hstep
  split at hstep
  · next hnow =>
    obtain rfl := Option.some.inj hstep
    exact h.step? hnow
  · split at hstep
    · split at hstep
      · exact (h.pass (Nat.le_max_left _ _)).trans fun ex hex => hex.step? hstep
      · cases hstep
    · cases hstep

theorem Carries.turn (h : ex.Carries bus queue coming) : ex.Leads bus (queue.turn bus) coming := by
  fun_induction CommandQueue.turn queue bus generalizing ex with
  | case1 queue next hmove ih => exact (h.move? hmove).trans fun ex hex => ih hex
  | case2 queue _ => exact h.leads

theorem Carries.runUntil (h : ex.Carries bus queue coming) (target : Nat) :
    ex.Leads bus (queue.runUntil bus target) coming := by
  fun_induction CommandQueue.runUntil queue bus target generalizing ex with
  | case1 queue next hstep ih => exact (h.stepBy? hstep).trans fun ex hex => ih hex
  | case2 queue _ => exact h.leads

theorem Carries.settle (h : ex.Carries bus queue coming) :
    ex.Leads bus (queue.settle bus) coming :=
  (h.runUntil queue.now).trans fun _ hex => hex.endTurn

theorem Carries.advance (h : ex.Carries bus queue coming) (ms : Nat) :
    ex.Leads bus (queue.advance bus ms) coming := by
  have hnow : (queue.runUntil bus (queue.now + ms)).now ≤ queue.now + ms :=
    CommandQueue.now_runUntil_le (Nat.le_add_right _ _)
  refine ((h.runUntil (queue.now + ms)).trans fun _ hex => hex.endTurn).trans ?_
  intro ex hex
  exact hex.pass hnow

/-! ## What others do -/

theorem Carries.publishAll (h : ex.Carries bus queue coming) (events : List Event) :
    ex.Leads (bus.publishAll events) queue coming := by
  induction events generalizing ex bus with
  | nil => exact h.leads
  | cons event rest ih =>
      have hfirst : ex.Leads (bus.publish event) queue coming := by
        obtain ⟨rfl, rfl, rfl⟩ := h
        exact Carries.leads_of_step (.publish event) ⟨rfl, rfl, rfl⟩
      exact hfirst.trans fun _ hex => ih hex

theorem Carries.enqueue (h : ex.Carries bus queue coming) (hheld : queue.signal.holders ≠ 0)
    {request : SendRequest} (hattached : request.attached = false) :
    ex.Leads bus (queue.enqueue request).2 coming := by
  obtain ⟨rfl, rfl, rfl⟩ := h
  have hrequest : { request with attached := false } = request := by rw [← hattached]
  refine Carries.leads_of_step (.enqueue request) ?_
  cases hrefusal : ex.queue.refusal? with
  | some error =>
      simp only [step, hheld, if_false, CommandQueue.enqueue, hrefusal]
      exact ⟨rfl, rfl, rfl⟩
  | none =>
      simp only [step, hheld, if_false, hrequest, CommandQueue.enqueue, hrefusal]
      exact ⟨rfl, rfl, rfl⟩

theorem Carries.send (h : ex.Carries bus queue coming) (hheld : queue.signal.holders ≠ 0)
    (request : SendRequest) :
    ex.Leads bus { queue.reserve.2 with signal := queue.signal.share }
      (coming ++ [⟨queue.issued, { request with attached := true }⟩]) := by
  obtain ⟨rfl, rfl, rfl⟩ := h
  refine Carries.leads_of_step (.send request) ?_
  simp only [step, hheld, if_false]
  exact ⟨rfl, rfl, rfl⟩

theorem Carries.deliverAll {jobs : List Job} (h : ex.Carries bus queue (jobs ++ coming)) :
    ex.Leads bus (jobs.foldl CommandQueue.deliver queue) coming := by
  induction jobs generalizing ex queue with
  | nil => exact h.leads
  | cons job rest ih =>
      have hfirst : ex.Leads bus (queue.deliver job) (rest ++ coming) := by
        obtain ⟨rfl, rfl, hcoming⟩ := h
        refine Carries.leads_of_step (.deliver job) ?_
        have hmem : job ∈ ex.coming := by
          rw [hcoming]
          exact List.mem_cons_self
        have herase : ex.coming.erase job = rest ++ coming := by
          rw [hcoming]
          exact List.erase_cons_head _ _
        simp only [step, hmem, if_true]
        split
        · exact ⟨rfl, rfl, herase⟩
        · exact ⟨rfl, rfl, herase⟩
      exact hfirst.trans fun _ hex => ih hex

theorem Carries.shutdown (h : ex.Carries bus queue coming) (hheld : queue.signal.holders ≠ 0) :
    ex.Leads bus queue.shutdown coming := by
  obtain ⟨rfl, rfl, rfl⟩ := h
  refine Carries.leads_of_step .shutdown ?_
  simp only [step, hheld, if_false]
  exact ⟨rfl, rfl, rfl⟩

theorem Carries.release (h : ex.Carries bus queue coming)
    (hheld : queue.Held (coming.length + 1)) :
    ex.Leads bus { queue with signal := queue.signal.release 1 } coming := by
  obtain ⟨rfl, rfl, rfl⟩ := h
  have hfree : ex.engaged < ex.queue.signal.holders := by
    unfold engaged
    rw [hheld]
    omega
  refine Carries.leads_of_step .release ?_
  simp only [step, hfree, if_true]
  exact ⟨rfl, rfl, rfl⟩

end Exchange

end PanelBus
