import PanelBus.Sending.Run
import PanelBus.Proofs.Event.Bus
import PanelBus.Proofs.Sending.Moves
/-!
# A confirmation that is on the bus is found

A queue that waits, with something on the bus that it has not read and that confirms the command,
reads on until it finds it.  Neither other events nor the ends of turns nor a deadline that has
passed come between; only the signal to stop does.
-/

namespace PanelBus.CommandQueue

/-- The `k`-th sending of the command waits for its confirmation, and one is there to be read. -/
structure Owes (bus : EventBus) (queue : CommandQueue) (job : Job) (k : Nat) : Prop where
  phase : ∃ left deadline, queue.phase = .waiting ⟨job, k, left⟩ deadline
  unread : 0 < bus.skipped queue.watcher.events ∨
    ∃ event ∈ bus.unread queue.watcher.events, event.confirms job.request.deviceId = true

variable {bus : EventBus} {events : List Event} {queue next : CommandQueue} {job : Job} {k : Nat}

theorem Owes.of_eq (h : Owes bus queue job k) (hphase : next.phase = queue.phase)
    (hwatcher : next.watcher = queue.watcher) : Owes bus next job k where
  phase := hphase ▸ h.phase
  unread := hwatcher ▸ h.unread

/-- More events do not take it away: they may push it out, but then some were missed. -/
theorem Owes.publish (h : Owes bus queue job k) (hbus : bus.Holds events) (event : Event) :
    Owes (bus.publish event) queue job k where
  phase := h.phase
  unread := by
    have hmore := hbus.publish event
    have hiff := hbus.skipped_pos_iff queue.watcher.events
    have hiff' := hmore.skipped_pos_iff queue.watcher.events
    rw [EventBus.capacity_publish, List.length_append, List.length_singleton] at hiff'
    by_cases hlagged : 0 < (bus.publish event).skipped queue.watcher.events
    · exact .inl hlagged
    · rcases h.unread with hbefore | ⟨confirming, hmem, hconfirms⟩
      · omega
      · refine .inr ⟨confirming, ?_, hconfirms⟩
        rw [hbus.unread_eq (by omega)] at hmem
        rw [hmore.unread_eq (by omega)]
        rw [List.drop_append]
        exact List.mem_append_left _ hmem

theorem Owes.publishAll (h : Owes bus queue job k) (hbus : bus.Holds events) (more : List Event) :
    Owes (bus.publishAll more) queue job k := by
  induction more generalizing bus events with
  | nil => exact h
  | cons event rest ih => exact ih (h.publish hbus event) (hbus.publish event)

theorem Owes.proceed? (h : Owes bus queue job k) (hbus : bus.Holds events)
    (hquiet : queue.stopping = false) :
    ∃ next, queue.proceed? bus = some next ∧
      ((∃ behind, next = queue.read behind ∧ Owes bus next job k) ∨
        next.log = .done queue.now job.ticket (.ok k) :: queue.log) := by
  obtain ⟨left, deadline, hphase⟩ := h.phase
  have hawait : queue.proceed? bus = queue.await? bus ⟨job, k, left⟩ deadline := by
    simp only [CommandQueue.proceed?, hphase, hquiet, Bool.false_eq_true, if_false]
  rw [hawait]
  unfold await?
  by_cases hlagged : 0 < bus.skipped queue.watcher.events
  · obtain ⟨behind, hnext⟩ := hbus.next?_of_skipped hlagged
    simp only [hnext, Reading.confirms, if_true]
    exact ⟨_, rfl, .inr rfl⟩
  · obtain ⟨confirming, hmem, hconfirms⟩ := h.unread.resolve_left hlagged
    obtain ⟨event, rest, hunread⟩ := List.exists_cons_of_ne_nil (List.ne_nil_of_mem hmem)
    obtain ⟨hnext, _, hrest⟩ := hbus.next?_of_unread (by omega) hunread
    simp only [hnext]
    by_cases hevent : (Reading.event event).confirms job.request.deviceId = true
    · rw [if_pos hevent]
      exact ⟨_, rfl, .inr rfl⟩
    · rw [if_neg hevent]
      refine ⟨_, rfl, .inl ⟨_, rfl, ⟨left, deadline, hphase⟩, .inr ⟨confirming, ?_, hconfirms⟩⟩⟩
      change confirming ∈ bus.unread ⟨_⟩
      rw [hrest]
      rw [hunread] at hmem
      refine (List.mem_cons.1 hmem).resolve_left ?_
      intro hself
      exact hevent (hself ▸ hconfirms)

/-! ## All turns -/

theorem stopping_eq_false_iff : queue.stopping = false ↔
    queue.signal.raisings = queue.watcher.signal.raisings ∧ queue.signal.holders ≠ 0 := by
  simp [stopping, StopSignal.firesFor]

theorem stopping_of_endTurn (h : queue.endTurn.stopping = false) : queue.stopping = false := by
  obtain ⟨hraisings, hholders⟩ := stopping_eq_false_iff.1 h
  refine stopping_eq_false_iff.2 ⟨hraisings, ?_⟩
  intro hnobody
  exact hholders (by simp [endTurn, StopSignal.release, hnobody])

/-- As long as a confirmation is there to be read, there is something to do at the present time. -/
theorem Owes.step? (h : Owes bus queue job k) (hbus : bus.Holds events)
    (hquiet : queue.endTurn.stopping = false) :
    ∃ next, queue.step? bus = some next ∧
      ((Owes bus next job k ∧ next.now = queue.now ∧ next.endTurn.stopping = false) ∨
        .done queue.now job.ticket (.ok k) ∈ next.log) := by
  cases hspent : queue.isSpent with
  | true =>
      have hmove : queue.move? bus = none := by simp only [CommandQueue.move?, hspent, if_true]
      have hsome : ¬(queue.leaving = 0 ∧ queue.spent = 0) := by
        have hlength : turnLength ≤ queue.spent := by simpa [isSpent] using hspent
        intro hnothing
        simp [hnothing.2, turnLength] at hlength
      refine ⟨queue.endTurn, ?_, .inl ⟨h.of_eq rfl rfl, rfl, hquiet⟩⟩
      simp only [CommandQueue.step?, hmove, hsome, if_false]
  | false =>
      obtain ⟨moved, hmoved, hcases⟩ := h.proceed? hbus (stopping_of_endTurn hquiet)
      have hstep : queue.step? bus = some { moved with spent := queue.spent + 1 } := by
        simp only [CommandQueue.step?, CommandQueue.move?, hspent, Bool.false_eq_true, if_false,
          hmoved, Option.map_some]
      refine ⟨_, hstep, ?_⟩
      rcases hcases with ⟨behind, rfl, howes⟩ | hlog
      · exact .inl ⟨howes.of_eq rfl rfl, rfl, hquiet⟩
      · refine .inr ?_
        change _ ∈ moved.log
        rw [hlog]
        exact List.mem_cons_self

theorem Owes.runUntil (h : Owes bus queue job k) (hbus : bus.Holds events)
    (hquiet : queue.endTurn.stopping = false) (target : Nat) :
    .done queue.now job.ticket (.ok k) ∈ (queue.runUntil bus target).log := by
  -- Every step comes at the present time, so the deadline is not reached before the confirmation.
  fun_induction CommandQueue.runUntil queue bus target with
  | case1 queue next hstep ih =>
      obtain ⟨other, hother, hcases⟩ := h.step? hbus hquiet
      have hsame : other = next := by
        unfold stepBy? at hstep
        rw [hother] at hstep
        exact Option.some.inj hstep
      subst hsame
      rcases hcases with ⟨howes, hnow, hquiet⟩ | hdone
      · rw [← hnow]
        exact ih howes hquiet
      · exact (log_suffix_runUntil _ bus target).mem hdone
  | case2 queue hstep =>
      obtain ⟨other, hother, _⟩ := h.step? hbus hquiet
      unfold stepBy? at hstep
      rw [hother] at hstep
      cases hstep

theorem Owes.settle (h : Owes bus queue job k) (hbus : bus.Holds events)
    (hquiet : queue.endTurn.stopping = false) :
    .done queue.now job.ticket (.ok k) ∈ (queue.settle bus).log :=
  h.runUntil hbus hquiet queue.now

end PanelBus.CommandQueue
