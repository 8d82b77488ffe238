import PanelBus.Sending.Run
/-!
# A queue and those who use it

The owner of a queue puts commands in at once.  Other senders wait for the result of their command:
each gets its turn later, in order, and keeps a hold on the queue until it has the result.  A sender
that comes when the turn of the queue is ahead already gets its turn behind it.
-/

namespace PanelBus

/-- A queue on its bus, with its owner and senders. -/
structure SendingDesk where
  /-- The bus whose events confirm commands. -/
  bus : EventBus
  queue : CommandQueue
  /-- Whether the owner still holds the queue. -/
  owned : Bool := true
  /-- The commands of senders that get their turn before the queue, first come first. -/
  early : List Job := []
  /-- The commands of senders that get their turn behind it, first come first. -/
  late : List Job := []

namespace SendingDesk

/-- A desk with a new bus and a new queue. -/
def ofDelay (txDelay : Nat) : SendingDesk :=
  { bus := .empty, queue := .ofBus .empty txDelay }

/-- Publishes events on the bus. -/
def publish (desk : SendingDesk) (events : List Event) : SendingDesk :=
  { desk with bus := desk.bus.publishAll events }

/-- The owner puts a command in. -/
def enqueue (desk : SendingDesk) (request : SendRequest) :
    Except CommandError Nat × SendingDesk :=
  let (result, queue) := desk.queue.enqueue request
  (result, { desk with queue })

/-- A sender comes with a command; its ticket is given back. -/
def send (desk : SendingDesk) (request : SendRequest) : Nat × SendingDesk :=
  let (ticket, queue) := desk.queue.reserve
  let job : Job := ⟨ticket, { request with attached := true }⟩
  let behind := queue.hasTurn desk.bus || !desk.late.isEmpty
  let queue := { queue with signal := queue.signal.share }
  (ticket,
    if behind then { desk with queue, late := desk.late ++ [job] }
    else { desk with queue, early := desk.early ++ [job] })

/-- The owner raises the signal to stop. -/
def shutdown (desk : SendingDesk) : SendingDesk := { desk with queue := desk.queue.shutdown }

/-- The owner lets the queue go. -/
def release (desk : SendingDesk) : SendingDesk :=
  { desk with
    owned := false
    queue := { desk.queue with signal := desk.queue.signal.release 1 } }

/-- All that happens at the present time. -/
def settle (desk : SendingDesk) : SendingDesk :=
  let queue := ((desk.early.foldl CommandQueue.deliver desk.queue).turn desk.bus).endTurn
  let queue := (desk.late.foldl CommandQueue.deliver queue).settle desk.bus
  { desk with queue, early := [], late := [] }

/-- All that happens in the next `ms` milliseconds. -/
def advance (desk : SendingDesk) (ms : Nat) : SendingDesk :=
  let desk := desk.settle
  { desk with queue := desk.queue.advance desk.bus ms }

end SendingDesk

end PanelBus
