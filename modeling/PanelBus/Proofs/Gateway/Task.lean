import PanelBus.Gateway.Run
import PanelBus.Proofs.Gateway.Life
/-!
# Running gateways as gateways

Turns are handed round among callers, listeners, the queue and the gateway.  What they do to the
gateway in the end is to give frames to its devices, to put commands in and to take turns of its
queue.  So what holds of every gateway that comes about holds of a running one after every turn.
-/

namespace PanelBus.GatewayTask

/-! ## What leaves the gateway alone -/

@[simp] theorem gateway_wake (task : GatewayTask) : task.wake.gateway = task.gateway := by
  unfold wake
  split <;> rfl

@[simp] theorem gateway_wakeQueue (task : GatewayTask) : task.wakeQueue.gateway = task.gateway := by
  unfold wakeQueue
  dsimp only
  split <;> rfl

@[simp] theorem gateway_vacate (task : GatewayTask) : task.vacate.gateway = task.gateway := by
  unfold vacate
  split <;> rfl

@[simp] theorem gateway_enter (task : GatewayTask) (request : GatewayRequest) :
    (task.enter request).gateway = task.gateway := by
  unfold enter
  split
  · rfl
  · exact gateway_wake _

@[simp] theorem gateway_call (task : GatewayTask) (request : GatewayRequest) :
    (task.call request).gateway = task.gateway := by
  unfold call
  split
  · rfl
  · split
    · rfl
    · exact gateway_enter _ request

theorem gateway_foldl {α : Type} {f : GatewayTask → α → GatewayTask}
    (hf : ∀ task a, (f task a).gateway = task.gateway) (items : List α) (task : GatewayTask) :
    (items.foldl f task).gateway = task.gateway := by
  induction items generalizing task with
  | nil => rfl
  | cons a rest ih => exact (ih _).trans (hf task a)

@[simp] theorem gateway_tellSince (task : GatewayTask) (first : Nat) :
    (task.tellSince first).gateway = task.gateway :=
  gateway_foldl (f := fun task ticket => task.tell (some ticket)) (fun _ _ => rfl) _ task

@[simp] theorem gateway_finish (task : GatewayTask) : task.finish.gateway = task.gateway :=
  gateway_foldl (f := refuse) (fun _ _ => rfl) task.requests _

/-! ## Turns -/

section turns

variable {config : GatewayConfig} {budget : Expr.Budget} {task next : GatewayTask}

/-- The gateway is one that comes about from the configuration. -/
def Runs (config : GatewayConfig) (budget : Expr.Budget) (task : GatewayTask) : Prop :=
  Gateway.Life config budget task.gateway

theorem Runs.of_eq (h : task.Runs config budget) (heq : next.gateway = task.gateway) :
    next.Runs config budget := by
  unfold Runs
  rw [heq]
  exact h

theorem Runs.foldl {α : Type} {f : GatewayTask → α → GatewayTask}
    (hf : ∀ task a, Runs config budget task → Runs config budget (f task a)) (items : List α)
    (h : task.Runs config budget) : (items.foldl f task).Runs config budget := by
  induction items generalizing task with
  | nil => exact h
  | cons a rest ih => exact ih (hf task a h)

theorem Runs.shutdown (h : task.Runs config budget) : task.shutdown.Runs config budget := by
  have hstopped : Runs config budget { task with gateway := task.gateway.shutdown } :=
    Gateway.Life.shutdown h
  exact hstopped.of_eq ((gateway_wake _).trans (gateway_wakeQueue _))

theorem Runs.stop (h : task.Runs config budget) : task.stop.Runs config budget := by
  have hstopped : Runs config budget { task with gateway := task.gateway.shutdown } :=
    Gateway.Life.shutdown h
  exact hstopped.of_eq ((gateway_finish _).trans (gateway_wakeQueue _))

theorem Runs.receive (h : task.Runs config budget) (chunk : Bytes) :
    (task.receive chunk).Runs config budget := by
  have hpushed : Runs config budget { task with gateway := (task.gateway.push chunk).2 } :=
    Gateway.Life.push h chunk
  exact hpushed.of_eq ((gateway_tellSince _ _).trans (gateway_wakeQueue _))

theorem Runs.handle (h : task.Runs config budget) (request : GatewayRequest) :
    (task.handle request).Runs config budget := by
  have hvacated : task.vacate.Runs config budget := h.of_eq (gateway_vacate task)
  have hput : Runs config budget
      { task.vacate with gateway := (task.vacate.gateway.command request.command).2 } :=
    Gateway.Life.command hvacated request.command
  refine hput.of_eq ?_
  unfold GatewayTask.handle
  dsimp only
  split
  · exact (gateway_tellSince _ _).trans (gateway_wakeQueue _)
  · exact (gateway_tellSince _ _).trans (gateway_wakeQueue _)

theorem Runs.serve (h : task.Runs config budget) (most : Nat) :
    (task.serve most).Runs config budget := by
  have hbefore : Runs config budget { task with requests := task.requests.drop most } := h
  have hserved := hbefore.foldl (fun _ request h => h.handle request) (task.requests.take most)
  unfold GatewayTask.serve
  dsimp only
  split
  · exact hserved.of_eq (gateway_finish _)
  · split
    · exact hserved.of_eq rfl
    · exact hserved

theorem Runs.turn (h : task.Runs config budget) : task.turn.Runs config budget := by
  unfold GatewayTask.turn
  split
  · exact h
  dsimp only
  split
  · exact Runs.stop h
  have hbefore : Runs config budget
      { task with
        sight? := some (task.sight?.getD task.gateway.queue.signal.sight)
        chunks := task.chunks.drop turnLength } := h
  have hreceived := hbefore.foldl (fun _ chunk h => h.receive chunk) (task.chunks.take turnLength)
  split
  · exact hreceived.of_eq (gateway_finish _)
  split
  · exact hreceived.of_eq rfl
  split
  · exact hreceived.stop
  · exact hreceived.serve _

theorem Runs.turnQueue (h : task.Runs config budget) : task.turnQueue.Runs config budget :=
  Gateway.Life.turn h

theorem Runs.step? (h : task.Runs config budget) (hstep : task.step? = some next) :
    next.Runs config budget := by
  unfold GatewayTask.step? at hstep
  split at hstep
  · next whose turns hnext =>
    obtain rfl := Option.some.inj hstep
    have hturn : Runs config budget { task with turns } := h
    cases whose with
    | gateway => exact hturn.turn
    | queue => exact hturn.turnQueue
    | caller request => exact hturn.of_eq (gateway_call _ request)
    | admitted request => exact hturn.of_eq (gateway_enter _ request)
    | listener ticket? => exact hturn
  · cases hstep

theorem Runs.run (h : task.Runs config budget) : task.run.Runs config budget := by
  fun_induction GatewayTask.run task with
  | case1 task next hstep ih => exact ih (h.step? hstep)
  | case2 task _ => exact h

end turns

/-! ## Everything that is done around a running gateway -/

/-- The running gateways that come about from a configuration. -/
inductive Life (config : GatewayConfig) (budget : Expr.Budget) : GatewayTask → Prop where
  | opened {gateway : Gateway} (h : Gateway.ofConfig config budget = .ok gateway) :
      Life config budget { gateway }
  | offer {task : GatewayTask} (h : Life config budget task) (chunk : Bytes) :
      Life config budget (task.offer chunk).2
  | closeChunks {task : GatewayTask} (h : Life config budget task) :
      Life config budget task.closeChunks
  | request {task : GatewayTask} (h : Life config budget task) (request : GatewayRequest) :
      Life config budget (task.request request)
  | shutdown {task : GatewayTask} (h : Life config budget task) : Life config budget task.shutdown
  | settle {task : GatewayTask} (h : Life config budget task) : Life config budget task.settle
  | advance {task : GatewayTask} (h : Life config budget task) (ms : Nat) :
      Life config budget (task.advance ms)

/-- A running gateway is one that comes about by frames, commands and turns of its queue. -/
theorem life_gateway {config : GatewayConfig} {budget : Expr.Budget} {task : GatewayTask}
    (h : Life config budget task) : Gateway.Life config budget task.gateway := by
  have hsettle : ∀ task, Runs config budget task → Runs config budget task.settle := by
    intro task h
    have hrestart : Runs config budget { task with turns := task.turns.restart } := h
    exact hrestart.run
  change Runs config budget task
  induction h with
  | opened h => exact Gateway.Life.opened h
  | @offer task _ chunk ih =>
      refine ih.of_eq ?_
      unfold GatewayTask.offer
      dsimp only
      split
      · rfl
      · exact gateway_wake _
  | closeChunks _ ih => exact ih.of_eq (gateway_wake _)
  | request _ request ih => exact ih
  | shutdown _ ih => exact ih.shutdown
  | settle _ ih => exact hsettle _ ih
  | advance _ ms ih => exact Gateway.Life.advance (hsettle _ ih) ms

end PanelBus.GatewayTask
