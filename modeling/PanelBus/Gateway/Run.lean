import PanelBus.Gateway.Progress
/-!
# Running a gateway on its own

Turns are taken one after the other until nobody waits for one.
-/

namespace PanelBus.GatewayTask

/-- All turns that are waited for. -/
def run (task : GatewayTask) : GatewayTask :=
  match _h : task.step? with
  | some next => next.run
  | none => task
termination_by task.remaining
decreasing_by exact nearer_of_step? ‹task.step? = some next›

/-- All that happens at the present time. -/
def settle (task : GatewayTask) : GatewayTask := { task with turns := task.turns.restart }.run

/-- All that happens in the next `ms` milliseconds. -/
def advance (task : GatewayTask) (ms : Nat) : GatewayTask :=
  let task := task.settle
  { task with gateway := task.gateway.advance ms }

end PanelBus.GatewayTask
