import PanelBus.Event.Bus
import PanelBus.StopSignal
/-!
# Confirmations

Devices do not answer commands.  A command counts as confirmed when the state of its device changes
after it was sent.  A subscriber that has missed events counts the command as confirmed too, since
the change may have been among them.
-/

namespace PanelBus

/-- Whether what a subscriber finds confirms a command to the device. -/
def Reading.confirms (deviceId : String) : Reading → Bool
  | .lagged _ => true
  | .event e => e.confirms deviceId

namespace EventBus

/-- Reads up to the first thing that confirms a command to the device, or to the end. -/
def confirmed (bus : EventBus) (deviceId : String) (sub : Subscription) : Bool × Subscription :=
  match _h : bus.next? sub with
  | some (reading, behind) =>
    if reading.confirms deviceId then (true, behind) else bus.confirmed deviceId behind
  | none => (false, sub)
termination_by bus.backlog sub
decreasing_by exact backlog_lt_of_next? ‹bus.next? sub = some (reading, behind)›

end EventBus

/-- How a wait for a confirmation ends. -/
inductive WaitOutcome where
  | confirmed
  | elapsed
  | stopped
deriving DecidableEq, Repr

/-- What waits for confirmations reads. -/
structure Watcher where
  events : Subscription
  /-- How much of the stop signal it has seen. -/
  signal : StopSignal.Sight
deriving DecidableEq, Repr

namespace Watcher

/-- Gives up all events that have not been read; their number, missed ones included. -/
def drain (watcher : Watcher) (bus : EventBus) : Nat × Watcher :=
  (bus.backlog watcher.events, { watcher with events := bus.subscribe })

/-- Waits for a confirmation while nothing more is published.  The signal to stop goes first, then
the events, and only then the time. -/
def wait (watcher : Watcher) (bus : EventBus) (signal : StopSignal) (deviceId : String) :
    WaitOutcome × Watcher :=
  if signal.firesFor watcher.signal then (.stopped, { watcher with signal := signal.sight })
  else
    let (confirmed, events) := bus.confirmed deviceId watcher.events
    (if confirmed then .confirmed else .elapsed, { watcher with events })

end Watcher

end PanelBus
