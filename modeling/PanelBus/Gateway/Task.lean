import PanelBus.Gateway.Basic
import PanelBus.Agenda
/-!
# Gateways on their own

A running gateway takes octets and requests from channels.  Whenever it gets its turn it looks for
the signal to stop first, then for octets, then for requests.  Callers put their requests into the
channel when they get their own turn; one that finds no room waits until there is some.  The queue
of the gateway takes turns like everybody else.

A gateway that breaks down ends at once.  Nobody has told its queue to stop then, so commands that
were taken before are still sent, but whoever waits for the gateway itself is refused.
-/

namespace PanelBus

/-- A request to a running gateway, under a number chosen by the caller. -/
structure GatewayRequest where
  key : Nat
  command : DeviceCommand

/-- The greatest number of requests that have room in the channel. -/
def GatewayRequest.maxWaiting : Nat := 32

/-- The answer to a request: the ticket of the command on the queue, or why there is none. -/
structure GatewayAnswer where
  key : Nat
  time : Nat
  ticket : Except CommandError Nat

/-- Whose turn it is around a running gateway. -/
inductive GatewayTurn where
  | gateway
  | queue
  /-- A caller that comes with a request. -/
  | caller (request : GatewayRequest)
  /-- A caller for whose request there is room now. -/
  | admitted (request : GatewayRequest)
  /-- Someone who is told about a command, or that there is none. -/
  | listener (ticket? : Option Nat)

/-- Whether two turns are turns of the same one. -/
def GatewayTurn.same : GatewayTurn → GatewayTurn → Bool
  | .gateway, .gateway | .queue, .queue => true
  | .caller a, .caller b | .admitted a, .admitted b => a.key == b.key
  | .listener a, .listener b => a == b
  | _, _ => false

instance : BEq GatewayTurn := ⟨GatewayTurn.same⟩

/-- A running gateway. -/
structure GatewayTask where
  gateway : Gateway
  /-- What the gateway has seen of the signal to stop; nothing before its first turn. -/
  sight? : Option StopSignal.Sight := none
  /-- The octets that wait, first come first. -/
  chunks : List Bytes := []
  /-- Whether more octets may come. -/
  isOpen : Bool := true
  /-- The requests that wait, first come first. -/
  requests : List GatewayRequest := []
  /-- The room that is left for requests. -/
  room : Nat := GatewayRequest.maxWaiting
  /-- The callers that wait for room, first come first. -/
  blocked : List GatewayRequest := []
  turns : Agenda GatewayTurn := { waiting := [.queue, .gateway] }
  /-- The answers given, oldest first. -/
  answers : List GatewayAnswer := []
  ended : Bool := false

namespace GatewayTask

/-! ## Asking -/

/-- The gateway gets a turn, unless it has ended. -/
def wake (task : GatewayTask) : GatewayTask :=
  if task.ended then task else { task with turns := task.turns.ask .gateway }

/-- Gives octets to the gateway, if it still takes them. -/
def offer (task : GatewayTask) (chunk : Bytes) : Bool × GatewayTask :=
  (!task.ended, if task.ended then task else { task with chunks := task.chunks ++ [chunk] }.wake)

/-- Gives no more octets. -/
def closeChunks (task : GatewayTask) : GatewayTask := { task with isOpen := false }.wake

/-- A caller comes with a request. -/
def request (task : GatewayTask) (request : GatewayRequest) : GatewayTask :=
  { task with turns := task.turns.push (.caller request) }

/-- The queue gets a turn, if it has a reason for one.  When it was put off it waits for its own
next turn unless it was called. -/
def wakeQueue (task : GatewayTask) : GatewayTask :=
  let queue := task.gateway.queue
  if queue.called || (!task.turns.has .queue && queue.hasTurn task.gateway.bus) then
    { task with turns := task.turns.ask .queue }
  else task

/-- Raises the signal to stop. -/
def shutdown (task : GatewayTask) : GatewayTask :=
  { task with gateway := task.gateway.shutdown }.wakeQueue.wake

/-! ## Turns of callers -/

/-- Answers a request. -/
def answer (task : GatewayTask) (request : GatewayRequest) (ticket : Except CommandError Nat) :
    GatewayTask :=
  { task with answers := task.answers ++ [⟨request.key, task.gateway.now, ticket⟩] }

/-- The turn of a caller that has room for its request. -/
def enter (task : GatewayTask) (request : GatewayRequest) : GatewayTask :=
  if task.ended then task.answer request (.error .closed)
  else { task with requests := task.requests ++ [request] }.wake

/-- The turn of a caller that comes with a request. -/
def call (task : GatewayTask) (request : GatewayRequest) : GatewayTask :=
  if task.ended then task.answer request (.error .closed)
  else
    match task.room with
    | 0 => { task with blocked := task.blocked ++ [request] }
    | room + 1 => { task with room }.enter request

/-! ## Turns of the gateway -/

/-- The greatest number of chunks and requests in a turn. -/
def turnLength : Nat := 128

/-- Someone will be told about a command, or that there is none. -/
def tell (task : GatewayTask) (ticket? : Option Nat) : GatewayTask :=
  { task with turns := task.turns.push (.listener ticket?) }

/-- Someone will be told about each of the commands issued from the `first` on. -/
def tellSince (task : GatewayTask) (first : Nat) : GatewayTask :=
  let issued := task.gateway.queue.issued - first
  (List.range' first issued).foldl (fun task ticket => task.tell (some ticket)) task

/-- Refuses a request that waits. -/
def refuse (task : GatewayTask) (request : GatewayRequest) : GatewayTask :=
  (task.answer request (.error .closed)).tell none

/-- Ends the gateway.  Requests that wait are refused, and callers that wait for room learn of it in
their turn. -/
def finish (task : GatewayTask) : GatewayTask :=
  let task := task.requests.foldl refuse { task with chunks := [], requests := [], ended := true }
  { task with
    blocked := []
    turns := task.blocked.foldl (fun turns request => turns.push (.admitted request)) task.turns }

/-- Stops the gateway, and its queue with it. -/
def stop (task : GatewayTask) : GatewayTask :=
  { task with gateway := task.gateway.shutdown }.wakeQueue.finish

/-- Receives octets. -/
def receive (task : GatewayTask) (chunk : Bytes) : GatewayTask :=
  let first := task.gateway.queue.issued
  ({ task with gateway := (task.gateway.push chunk).2 }.wakeQueue).tellSince first

/-- A request leaves the channel.  Its room goes to the first caller that waits for some. -/
def vacate (task : GatewayTask) : GatewayTask :=
  match task.blocked with
  | [] => { task with room := task.room + 1 }
  | request :: blocked => { task with blocked, turns := task.turns.push (.admitted request) }

/-- Carries out a request.  When the gateway breaks down over it the caller is refused, even if the
command is on the queue by then. -/
def handle (task : GatewayTask) (request : GatewayRequest) : GatewayTask :=
  let task := task.vacate
  let first := task.gateway.queue.issued
  let (ticket, gateway) := task.gateway.command request.command
  let task := ({ task with gateway }.wakeQueue).tellSince first
  let task := task.answer request (if gateway.broken then .error .closed else ticket)
  match ticket with
  | .error _ => task.tell none
  | .ok _ => task

/-- The gateway is put off. -/
def delay (task : GatewayTask) : GatewayTask := { task with turns := task.turns.delay .gateway }

/-- Carries out the requests that wait, up to a number. -/
def serve (task : GatewayTask) (most : Nat) : GatewayTask :=
  let waiting := task.requests
  let task := (waiting.take most).foldl handle { task with requests := waiting.drop most }
  if task.gateway.broken then task.finish
  else if most ≤ waiting.length then task.delay
  else task

/-- A turn of the gateway.  In its first turn it begins to look for the signal. -/
def turn (task : GatewayTask) : GatewayTask :=
  if task.ended then task
  else
    let sight := task.sight?.getD task.gateway.queue.signal.sight
    let task := { task with sight? := some sight }
    if task.gateway.queue.signal.firesFor sight then task.stop
    else
      let waiting := task.chunks
      let task := (waiting.take turnLength).foldl receive
        { task with chunks := waiting.drop turnLength }
      if task.gateway.broken then task.finish
      else if turnLength ≤ waiting.length then task.delay
      else if !task.isOpen then task.stop
      else task.serve (turnLength - waiting.length)

/-! ## Turns of the queue -/

/-- The tickets of the commands that have got their result, of those reports. -/
def concluded (reports : List Report) : List Nat :=
  reports.filterMap fun
    | .done _ ticket _ => some ticket
    | _ => none

/-- A turn of the queue. -/
def turnQueue (task : GatewayTask) : GatewayTask :=
  let before := task.gateway.queue
  let queue := before.turn task.gateway.bus
  let turns := (concluded (queue.reportsAfter before.log.length)).foldl
    (fun turns ticket => turns.ask (.listener (some ticket))) task.turns
  { task with
    gateway := { task.gateway with queue := queue.endTurn }
    turns := if queue.isSpent then turns.delay .queue else turns }

/-! ## One turn after the other -/

/-- A turn. -/
def act (task : GatewayTask) : GatewayTurn → GatewayTask
  | .gateway => task.turn
  | .queue => task.turnQueue
  | .caller request => task.call request
  | .admitted request => task.enter request
  | .listener _ => task

/-- The next turn. -/
def step? (task : GatewayTask) : Option GatewayTask :=
  match task.turns.next? with
  | some (whose, turns) => some ({ task with turns }.act whose)
  | none => none

end GatewayTask

end PanelBus
