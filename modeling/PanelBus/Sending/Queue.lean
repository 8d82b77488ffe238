import PanelBus.Sending.Basic
import PanelBus.Event.Confirmation
import PanelBus.Clock
/-!
# The command queue

All devices of a line share one queue.  It carries out one command at a time: it keeps the distance
to the last sending, sends, waits for a confirmation and, if none comes, rests and sends again.
`proceed?` is one such move; moves take no time.  Time passes only in `advance`, which goes from one
due time to the next.  What a queue has done is in its log.

Moves are made in turns.  A turn ends when there is no move left or when its number of moves is used
up, so that others who wait get theirs.

A queue that finds a lane empty asks to be called when a command comes into it.  It is called once,
even when by then it is busy and cannot take the command.
-/

namespace PanelBus

/-- A command that was accepted, under its number. -/
structure Job where
  ticket : Nat
  request : SendRequest
deriving DecidableEq, Repr

/-- A command that is being carried out. -/
structure Sending where
  job : Job
  /-- The number of times it was sent. -/
  sent : Nat
  /-- The number of repetitions that are left after the sending at hand. -/
  left : Nat
deriving DecidableEq, Repr

/-- What a queue is doing. -/
inductive Phase where
  | idle
  /-- Keeping the distance to the last sending. -/
  | pacing (sending : Sending)
  /-- Waiting for a confirmation until the deadline. -/
  | waiting (sending : Sending) (deadline : Nat)
  /-- Resting before the next repetition until that time. -/
  | resting (sending : Sending) (wake : Nat)
  /-- Nothing any more. -/
  | ended
deriving DecidableEq, Repr

/-- Something that a queue did. -/
inductive Report where
  /-- A command was taken out of its lane. -/
  | taken (time ticket : Nat)
  | sent (time ticket : Nat) (frame : Bytes)
  /-- A command got its result. -/
  | done (time ticket : Nat) (result : CommandResult)

/-- A queue of commands for one line. -/
structure CommandQueue where
  /-- The least time between two sendings, in milliseconds. -/
  txDelay : Nat
  /-- What it reads of events and of the signal to stop. -/
  watcher : Watcher
  signal : StopSignal := {}
  /-- The present time, in milliseconds. -/
  now : Nat := 0
  phase : Phase := .idle
  /-- The commands that wait in the lane emptied first. -/
  high : List Job := []
  /-- The commands that wait in the other lane. -/
  low : List Job := []
  /-- Whether the next command in the lane emptied first calls the queue. -/
  heedsHigh : Bool := false
  /-- Whether the next command in the other lane calls the queue. -/
  heedsLow : Bool := false
  /-- Whether the queue was called since its last turn.  A new queue is called to its first one. -/
  called : Bool := true
  /-- The number of moves made in the turn at hand. -/
  spent : Nat := 0
  /-- When the last frame was sent. -/
  lastTx? : Option Nat := none
  /-- The senders that have their result and still hold the signal. -/
  leaving : Nat := 0
  /-- The number of tickets given out. -/
  issued : Nat := 0
  /-- What it has done, newest first. -/
  log : List Report := []

namespace CommandQueue

/-- A queue on a bus, of which nothing was asked yet. -/
def ofBus (bus : EventBus) (txDelay : Nat) : CommandQueue :=
  { txDelay, watcher := ⟨bus.subscribe, {}⟩ }

/-- Whether the queue has been told to stop. -/
def stopping (queue : CommandQueue) : Bool := queue.signal.firesFor queue.watcher.signal

/-- Whether the queue does nothing any more. -/
def hasEnded (queue : CommandQueue) : Bool := queue.phase = .ended

/-- What the queue has done after its first `n` reports, oldest first. -/
def reportsAfter (queue : CommandQueue) (n : Nat) : List Report :=
  (queue.log.take (queue.log.length - n)).reverse

/-! ## Asking -/

/-- Gives out a ticket. -/
def reserve (queue : CommandQueue) : Nat × CommandQueue :=
  (queue.issued, { queue with issued := queue.issued + 1 })

/-- Puts a command at the end of its lane, and calls the queue if it asked for that. -/
def append (queue : CommandQueue) (job : Job) : CommandQueue :=
  match job.request.priority with
  | .high =>
    { queue with
      high := queue.high ++ [job]
      heedsHigh := false
      called := queue.called || queue.heedsHigh }
  | .low =>
    { queue with
      low := queue.low ++ [job]
      heedsLow := false
      called := queue.called || queue.heedsLow }

/-- Why the queue takes no more commands, if it does not. -/
def refusal? (queue : CommandQueue) : Option CommandError :=
  if queue.signal.raised then some .stopped
  else if queue.hasEnded then some .closed
  else none

/-- Takes a command, under the ticket that is given back. -/
def enqueue (queue : CommandQueue) (request : SendRequest) :
    Except CommandError Nat × CommandQueue :=
  match queue.refusal? with
  | some error => (.error error, queue)
  | none =>
    let (ticket, queue) := queue.reserve
    (.ok ticket, queue.append ⟨ticket, request⟩)

/-- Raises the signal to stop. -/
def shutdown (queue : CommandQueue) : CommandQueue := { queue with signal := queue.signal.raise }

/-- Notes the result of a command.  A sender that has waited for it may go. -/
def conclude (queue : CommandQueue) (job : Job) (result : CommandResult) : CommandQueue :=
  { queue with
    leaving := queue.leaving + (if job.request.attached then 1 else 0)
    log := .done queue.now job.ticket result :: queue.log }

/-- Takes a command whose ticket was given out before.  A refusal is its result. -/
def deliver (queue : CommandQueue) (job : Job) : CommandQueue :=
  match queue.refusal? with
  | some error => queue.conclude job (.error error)
  | none => queue.append job

/-! ## Moves -/

/-- Gives the command at hand its result. -/
def finish (queue : CommandQueue) (job : Job) (result : CommandResult) : CommandQueue :=
  { queue.conclude job result with phase := .idle }

/-- Ends the queue: the command at hand and all that wait, those in the lane emptied first before
the others, fail. -/
def stop (queue : CommandQueue) (current : List Job) : CommandQueue :=
  let jobs := current ++ queue.high ++ queue.low
  let queue := jobs.foldl (fun queue job => queue.conclude job (.error .stopped)) queue
  { queue with phase := .ended, high := [], low := [] }

/-- When the distance to the last sending is kept. -/
def ready (queue : CommandQueue) : Nat :=
  match queue.lastTx? with
  | some last => last + queue.txDelay
  | none => queue.now

/-- Sends the frame.  Events that came before cannot confirm it and are given up. -/
def transmit (queue : CommandQueue) (bus : EventBus) (sending : Sending) : CommandQueue :=
  let request := sending.job.request
  { queue with
    phase := .waiting { sending with sent := sending.sent + 1 }
      (Clock.after queue.now request.retry.timeout)
    watcher := (queue.watcher.drain bus).2
    lastTx? := some queue.now
    log := .sent queue.now sending.job.ticket request.frame :: queue.log }

/-- Takes up a command that was next in its lane.  The first sending of all has no distance to
keep and follows at once. -/
def take (queue : CommandQueue) (bus : EventBus) (job : Job) : CommandQueue :=
  let sending : Sending := ⟨job, 0, job.request.retry.attempts⟩
  let queue := { queue with log := .taken queue.now job.ticket :: queue.log }
  match queue.lastTx? with
  | some _ => { queue with phase := .pacing sending }
  | none => queue.transmit bus sending

/-- Goes on after a wait without a confirmation. -/
def elapse (queue : CommandQueue) (sending : Sending) : CommandQueue :=
  match sending.left with
  | 0 => queue.finish sending.job (.error (.unconfirmed sending.job.request.retry.total))
  | left + 1 =>
    { queue with
      phase := .resting { sending with left }
        (Clock.after queue.now sending.job.request.retry.interval) }

/-- Reads an event while waiting.  All events go before the deadline. -/
def await? (queue : CommandQueue) (bus : EventBus) (sending : Sending) (deadline : Nat) :
    Option CommandQueue :=
  match bus.next? queue.watcher.events with
  | some (reading, events) =>
    let queue := { queue with watcher := { queue.watcher with events } }
    some (if reading.confirms sending.job.request.deviceId then
      queue.finish sending.job (.ok sending.sent)
    else queue)
  | none => if deadline ≤ queue.now then some (queue.elapse sending) else none

/-- A move in the phase at hand, if there is one at the present time. -/
def proceed? (queue : CommandQueue) (bus : EventBus) : Option CommandQueue :=
  match queue.phase with
  | .ended => none
  | .idle =>
    if queue.stopping then some (queue.stop [])
    else
      match queue.high, queue.low with
      | job :: high, _ => some ({ queue with high }.take bus job)
      | [], job :: low => some ({ queue with low, heedsHigh := true }.take bus job)
      | [], [] => none
  | .pacing sending =>
    if queue.stopping then some (queue.stop [sending.job])
    else if queue.ready ≤ queue.now then some (queue.transmit bus sending)
    else none
  | .waiting sending deadline =>
    if queue.stopping then some (queue.stop [sending.job])
    else queue.await? bus sending deadline
  | .resting sending wake =>
    if queue.stopping then some (queue.stop [sending.job])
    else if wake ≤ queue.now then some { queue with phase := .pacing sending }
    else none

/-! ## Turns -/

/-- The greatest number of moves in a turn. -/
def turnLength : Nat := 128

/-- Whether the turn at hand allows no more moves. -/
def isSpent (queue : CommandQueue) : Bool := turnLength ≤ queue.spent

/-- A move in the turn at hand, if there is one at the present time. -/
def move? (queue : CommandQueue) (bus : EventBus) : Option CommandQueue :=
  if queue.isSpent then none
  else (queue.proceed? bus).map fun next => { next with spent := queue.spent + 1 }

/-- The end of a turn.  The senders that have their result go.  A queue that would still have been
allowed a move and is idle has found both lanes empty. -/
def endTurn (queue : CommandQueue) : CommandQueue :=
  let looked := !queue.isSpent && queue.phase = .idle
  { queue with
    signal := queue.signal.release queue.leaving
    leaving := 0
    heedsHigh := queue.heedsHigh || looked
    heedsLow := queue.heedsLow || looked
    called := false
    spent := 0 }

/-- A move at the present time or, if there is none, the end of the turn in which some were
made. -/
def step? (queue : CommandQueue) (bus : EventBus) : Option CommandQueue :=
  match queue.move? bus with
  | some next => some next
  | none => if queue.leaving = 0 ∧ queue.spent = 0 then none else some queue.endTurn

/-- Whether the queue, at rest, has a reason for a turn. -/
def hasTurn (queue : CommandQueue) (bus : EventBus) : Bool :=
  queue.called || (queue.proceed? bus).isSome

/-- When there is a move again, if nothing else happens. -/
def due? (queue : CommandQueue) : Option Nat :=
  match queue.phase with
  | .idle | .ended => none
  | .pacing _ => some queue.ready
  | .waiting _ deadline => some deadline
  | .resting _ wake => some wake

/-- A move at the present time or, if there is none, at the next due time up to `target`. -/
def stepBy? (queue : CommandQueue) (bus : EventBus) (target : Nat) : Option CommandQueue :=
  match queue.step? bus with
  | some next => some next
  | none =>
    match queue.due? with
    | some due =>
      if due ≤ target then { queue with now := max queue.now due }.step? bus else none
    | none => none

end CommandQueue

end PanelBus
