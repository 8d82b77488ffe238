import PanelBus.Gateway.Task
import PanelBus.Sending.Run
/-!
# Turns around a gateway come to an end

Every turn of a caller or of the gateway takes something forward that never comes back: a caller
finds room, a request or octets are carried out.  A turn of the queue leaves all that as it is and
takes the queue closer to rest, or leaves the queue as it is and was asked for once.  Main
statement: `nearer_of_step?`.
-/

namespace PanelBus

/-- What a turn still costs: what its owner brings forward before it has no more turns. -/
def GatewayTurn.weight : GatewayTurn → Nat
  | .gateway => 1
  | .queue | .listener _ => 0
  | .caller _ => 5
  | .admitted _ => 3

/-- The turns that bring nothing forward by themselves. -/
def GatewayTurn.idleWeight : GatewayTurn → Nat
  | .queue | .listener _ => 1
  | _ => 0

namespace GatewayTask

/-- What is left to be brought forward by callers and the gateway. -/
def effort (task : GatewayTask) : Nat :=
  task.turns.weigh GatewayTurn.weight + 4 * task.blocked.length + task.requests.length +
    task.chunks.length

theorem effort_foldl_le {α : Type} {f : GatewayTask → α → GatewayTask}
    (hf : ∀ task a, (f task a).effort ≤ task.effort) (items : List α) (task : GatewayTask) :
    (items.foldl f task).effort ≤ task.effort := by
  induction items generalizing task with
  | nil => exact Nat.le_refl _
  | cons a rest ih => exact Nat.le_trans (ih _) (hf task a)

theorem effort_wake_le (task : GatewayTask) : task.wake.effort ≤ task.effort + 1 := by
  unfold wake
  split
  · omega
  · have hask := task.turns.weigh_ask_le GatewayTurn.weight .gateway
    simp only [effort, GatewayTurn.weight] at hask ⊢
    omega

theorem effort_wakeQueue_le (task : GatewayTask) : task.wakeQueue.effort ≤ task.effort := by
  unfold wakeQueue
  dsimp only
  split
  · have hask := task.turns.weigh_ask_le GatewayTurn.weight .queue
    simp only [effort, GatewayTurn.weight] at hask ⊢
    omega
  · omega

theorem effort_tell (task : GatewayTask) (ticket? : Option Nat) :
    (task.tell ticket?).effort = task.effort := by
  simp [tell, effort, GatewayTurn.weight]

theorem effort_tellSince_le (task : GatewayTask) (first : Nat) :
    (task.tellSince first).effort ≤ task.effort :=
  effort_foldl_le (fun task ticket => Nat.le_of_eq (effort_tell task (some ticket))) _ _

theorem effort_refuse (task : GatewayTask) (request : GatewayRequest) :
    (task.refuse request).effort = task.effort := by
  rw [refuse, effort_tell]
  rfl

theorem effort_enter_le (task : GatewayTask) (request : GatewayRequest) :
    (task.enter request).effort ≤ task.effort + 2 := by
  unfold enter
  split
  · exact Nat.le_add_right _ _
  · refine Nat.le_trans (effort_wake_le _) ?_
    simp only [effort, List.length_append, List.length_singleton]
    omega

theorem effort_call_le (task : GatewayTask) (request : GatewayRequest) :
    (task.call request).effort ≤ task.effort + 4 := by
  unfold call
  split
  · exact Nat.le_add_right _ _
  · split
    · simp only [effort, List.length_append, List.length_singleton]
      omega
    · next room _ =>
      have henter := effort_enter_le { task with room } request
      simp only [effort] at henter ⊢
      omega

theorem blocked_foldl_refuse (requests : List GatewayRequest) (task : GatewayTask) :
    (requests.foldl refuse task).blocked = task.blocked := by
  induction requests generalizing task with
  | nil => rfl
  | cons request rest ih => exact ih _

theorem weigh_foldl_admitted (requests : List GatewayRequest) (turns : Agenda GatewayTurn) :
    (requests.foldl (fun turns request => turns.push (.admitted request)) turns).weigh
        GatewayTurn.weight = turns.weigh GatewayTurn.weight + 3 * requests.length := by
  induction requests generalizing turns with
  | nil => rfl
  | cons request rest ih =>
    simp only [List.foldl_cons, ih, Agenda.weigh_push, GatewayTurn.weight, List.length_cons]
    omega

theorem effort_finish_le (task : GatewayTask) : task.finish.effort ≤ task.effort := by
  have hrefuse := effort_foldl_le (fun task request => Nat.le_of_eq (effort_refuse task request))
    task.requests { task with chunks := [], requests := [], ended := true }
  have hblocked := blocked_foldl_refuse task.requests
    { task with chunks := [], requests := [], ended := true }
  simp only [effort, List.length_nil] at hrefuse
  simp only [finish, effort, weigh_foldl_admitted, List.length_nil]
  rw [hblocked] at hrefuse ⊢
  omega

theorem effort_stop_le (task : GatewayTask) : task.stop.effort ≤ task.effort :=
  Nat.le_trans (effort_finish_le _) (effort_wakeQueue_le _)

theorem effort_receive_le (task : GatewayTask) (chunk : Bytes) :
    (task.receive chunk).effort ≤ task.effort :=
  Nat.le_trans (effort_tellSince_le _ _) (effort_wakeQueue_le _)

theorem effort_vacate_le (task : GatewayTask) : task.vacate.effort ≤ task.effort := by
  unfold vacate
  split
  · exact Nat.le_refl _
  · next request blocked hblocked =>
    simp only [effort, Agenda.weigh_push, GatewayTurn.weight, hblocked, List.length_cons]
    omega

theorem effort_handle_le (task : GatewayTask) (request : GatewayRequest) :
    (task.handle request).effort ≤ task.effort := by
  have hvacate := effort_vacate_le task
  unfold handle
  dsimp only
  split
  · rw [effort_tell]
    exact Nat.le_trans (Nat.le_trans (effort_tellSince_le _ _) (effort_wakeQueue_le _)) hvacate
  · exact Nat.le_trans (Nat.le_trans (effort_tellSince_le _ _) (effort_wakeQueue_le _)) hvacate

theorem effort_delay (task : GatewayTask) : task.delay.effort = task.effort + 1 := by
  simp only [delay, effort, Agenda.weigh_delay, GatewayTurn.weight]
  omega

theorem effort_serve_le (task : GatewayTask) {most : Nat} (hmost : 0 < most) :
    (task.serve most).effort ≤ task.effort := by
  have hhandle := effort_foldl_le effort_handle_le (task.requests.take most)
    { task with requests := task.requests.drop most }
  have hdrop : (task.requests.drop most).length = task.requests.length - most :=
    List.length_drop
  simp only [effort, hdrop] at hhandle
  unfold serve
  dsimp only
  split
  · refine Nat.le_trans (effort_finish_le _) ?_
    simp only [effort]
    omega
  · split
    · rw [effort_delay]
      simp only [effort]
      omega
    · simp only [effort]
      omega

theorem effort_turn_le (task : GatewayTask) : task.turn.effort ≤ task.effort := by
  unfold turn
  split
  · exact Nat.le_refl _
  · dsimp only
    split
    · exact effort_stop_le _
    · have hreceive := effort_foldl_le effort_receive_le (task.chunks.take turnLength)
        { task with
          sight? := some (task.sight?.getD task.gateway.queue.signal.sight)
          chunks := task.chunks.drop turnLength }
      have hdrop : (task.chunks.drop turnLength).length = task.chunks.length - turnLength :=
        List.length_drop
      simp only [effort, hdrop] at hreceive
      have hlength : 0 < turnLength := by decide
      split
      · refine Nat.le_trans (effort_finish_le _) ?_
        simp only [effort]
        omega
      · split
        · rw [effort_delay]
          simp only [effort]
          omega
        · next hleft =>
          split
          · refine Nat.le_trans (effort_stop_le _) ?_
            simp only [effort]
            omega
          · refine Nat.le_trans (effort_serve_le _ (by omega)) ?_
            simp only [effort]
            omega

theorem weigh_foldl_ask_le (tickets : List Nat) (turns : Agenda GatewayTurn) :
    (tickets.foldl (fun turns ticket => turns.ask (.listener (some ticket))) turns).weigh
        GatewayTurn.weight ≤ turns.weigh GatewayTurn.weight := by
  induction tickets generalizing turns with
  | nil => exact Nat.le_refl _
  | cons ticket rest ih =>
    exact Nat.le_trans (ih _) (turns.weigh_ask_le GatewayTurn.weight (.listener (some ticket)))

theorem effort_turnQueue_le (task : GatewayTask) : task.turnQueue.effort ≤ task.effort := by
  have hask := weigh_foldl_ask_le
    (concluded ((task.gateway.queue.turn task.gateway.bus).reportsAfter
      task.gateway.queue.log.length)) task.turns
  simp only [turnQueue, effort]
  split
  · rw [Agenda.weigh_delay]
    simp only [GatewayTurn.weight]
    omega
  · omega

/-- What is left: for callers and the gateway, then moves and events of the queue, then moves made
in its turn, then turns that bring nothing forward. -/
def remaining (task : GatewayTask) : Nat × Nat × Nat × Nat × Nat :=
  (task.effort, task.gateway.queue.work,
    task.gateway.bus.backlog task.gateway.queue.watcher.events, task.gateway.queue.spent,
    task.turns.weigh GatewayTurn.idleWeight)

/-- Less is left. -/
def Nearer (next task : GatewayTask) : Prop :=
  Prod.Lex (· < ·) (Prod.Lex (· < ·) (Prod.Lex (· < ·) (Prod.Lex (· < ·) (· < ·))))
    next.remaining task.remaining

theorem nearer_of_effort_lt {next task : GatewayTask} (h : next.effort < task.effort) :
    Nearer next task :=
  Prod.Lex.left _ _ h

theorem nearer_of_turnQueue {task : GatewayTask} {turns : Agenda GatewayTurn}
    (h : task.turns.next? = some (.queue, turns)) :
    Nearer { task with turns }.turnQueue task := by
  have hweight := Agenda.weigh_of_next? GatewayTurn.weight h
  have hidle := Agenda.weigh_of_next? GatewayTurn.idleWeight h
  have heffort : { task with turns }.turnQueue.effort ≤ task.effort := by
    refine Nat.le_trans (effort_turnQueue_le _) ?_
    simp only [effort, GatewayTurn.weight] at hweight ⊢
    omega
  rcases Nat.lt_or_eq_of_le heffort with hless | hsame
  · exact nearer_of_effort_lt hless
  have hwork := CommandQueue.work_endTurn (task.gateway.queue.turn task.gateway.bus)
  unfold Nearer remaining
  rw [hsame]
  refine Prod.Lex.right _ ?_
  change Prod.Lex _ _ ((task.gateway.queue.turn task.gateway.bus).endTurn.work,
    task.gateway.bus.backlog (task.gateway.queue.turn task.gateway.bus).watcher.events, 0, _) _
  rcases task.gateway.queue.turn_eq_or_closer task.gateway.bus with heq | hcloser
  · rw [heq] at hwork ⊢
    rcases Nat.lt_or_eq_of_le (Nat.le_of_add_right_le (Nat.le_of_eq hwork)) with hless | heqwork
    · exact Prod.Lex.left _ _ hless
    · rw [heqwork]
      refine Prod.Lex.right _ (Prod.Lex.right _ ?_)
      rcases Nat.eq_zero_or_pos task.gateway.queue.spent with hspent | hspent
      · rw [hspent]
        refine Prod.Lex.right _ ?_
        have hnone : (task.gateway.queue.reportsAfter task.gateway.queue.log.length) = [] := by
          simp [CommandQueue.reportsAfter]
        have hfresh : task.gateway.queue.isSpent = false := by
          simp [CommandQueue.isSpent, hspent, CommandQueue.turnLength]
        simp only [turnQueue, heq, hnone, concluded, hfresh, GatewayTurn.idleWeight] at hidle ⊢
        simp only [List.filterMap_nil, List.foldl_nil, Bool.false_eq_true, if_false]
        omega
      · exact Prod.Lex.left _ _ hspent
  · rcases hcloser with hless | ⟨hsamework, hless⟩
    · exact Prod.Lex.left _ _ (by omega)
    · rcases Nat.lt_or_eq_of_le (Nat.le_of_add_right_le (Nat.le_of_eq hwork)) with hlesswork | heq
      · exact Prod.Lex.left _ _ (by omega)
      · rw [heq, hsamework]
        exact Prod.Lex.right _ (Prod.Lex.left _ _ hless)

theorem nearer_of_step? {task next : GatewayTask} (h : task.step? = some next) :
    Nearer next task := by
  unfold step? at h
  split at h
  · next whose turns hnext =>
    injection h with h
    subst h
    have hweight := Agenda.weigh_of_next? GatewayTurn.weight hnext
    cases whose with
    | gateway =>
      apply nearer_of_effort_lt
      have hturn := effort_turn_le { task with turns }
      simp only [act, effort, GatewayTurn.weight] at hturn hweight ⊢
      omega
    | queue => exact nearer_of_turnQueue hnext
    | caller request =>
      apply nearer_of_effort_lt
      have hcall := effort_call_le { task with turns } request
      simp only [act, effort, GatewayTurn.weight] at hcall hweight ⊢
      omega
    | admitted request =>
      apply nearer_of_effort_lt
      have henter := effort_enter_le { task with turns } request
      simp only [act, effort, GatewayTurn.weight] at henter hweight ⊢
      omega
    | listener ticket? =>
      have hidle := Agenda.weigh_of_next? GatewayTurn.idleWeight hnext
      have heffort : { task with turns }.effort = task.effort := by
        simp only [effort, GatewayTurn.weight] at hweight ⊢
        omega
      unfold Nearer remaining
      simp only [act]
      rw [heffort]
      refine Prod.Lex.right _ (Prod.Lex.right _ (Prod.Lex.right _ (Prod.Lex.right _ ?_)))
      simp only [GatewayTurn.idleWeight] at hidle
      omega
  · cases h

end GatewayTask

end PanelBus
