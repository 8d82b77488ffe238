import PanelBus.Config.Gateway
import PanelBus.Line.Assembler
import PanelBus.Sending.Run
/-!
# Gateways

A gateway turns the octets of its line into frames, frames into changes of its devices, and
commands into frames on its queue.  Expressions may issue commands themselves, by the host function
`command`; these are carried out after whatever made the expressions run.

A gateway breaks down when an evaluation breaks off.  What it was doing is given up, it publishes
nothing and takes no command from then on, and its queue goes on with the commands that it has.
-/

namespace PanelBus

open Json (Value Fields)

/-- A command for a device of the gateway. -/
structure DeviceCommand where
  deviceId : String
  command : String
  value? : Option Value := none

/-- The command that the arguments of a host call name: the id of the device, the name of the
command and perhaps an argument. -/
def DeviceCommand.ofArgs? : List Value → Option DeviceCommand
  | [.str deviceId, .str command] => some { deviceId, command }
  | [.str deviceId, .str command, value] => some { deviceId, command, value? := some value }
  | _ => none

/-- Why a configuration gives no gateway. -/
inductive GatewayError where
  | line (fault : Line.Fault)
  | entity (error : EntityError)
deriving DecidableEq, Repr

/-- The text of the error. -/
def GatewayError.message : GatewayError → String
  | .line fault => "Configuration error: " ++ fault.message
  | .entity error => "Configuration error: " ++ error.message

/-- A gateway at work. -/
structure Gateway where
  id : String
  line : Line
  assembler : Assembler
  registry : Registry
  session : Expr.Session
  bus : EventBus
  queue : CommandQueue

namespace Gateway

/-- The name of the host function that issues commands. -/
def commandHostName : String := "command"

/-- The host function that issues commands.  It only answers; what it issues is read off its
calls. -/
def commandHost : Expr.HostFunction := fun args =>
  match DeviceCommand.ofArgs? args with
  | some _ => .ok (.bool true)
  | none => .error "command expects (device_id, command[, value])"

/-- The greatest number of commands issued by expressions that one operation carries out. -/
def maxIssued : Nat := 16

/-- The gateway of a configuration. -/
def ofConfig (config : GatewayConfig) (budget : Expr.Budget) : Except GatewayError Gateway := do
  let line ← (Line.ofSettings config.settings).mapError .line
  let env : DeviceEnv :=
    { base := line.rx.header.length, hosts := [(commandHostName, commandHost)] }
  let (result, session) :=
    (Registry.ofEntities env config.entities).run { engine := { budget } }
  let registry ← result.mapError .entity
  return {
    id := config.id
    line, registry, session
    assembler := .ofFormat line.rx
    bus := .empty
    queue := .ofBus .empty line.txDelay }

/-- The present time. -/
def now (gateway : Gateway) : Nat := gateway.queue.now

/-- Whether the gateway has broken down. -/
def broken (gateway : Gateway) : Bool := gateway.session.broken

/-- The states of the devices, in the order of their registration. -/
def states (gateway : Gateway) : List (String × Fields) :=
  gateway.registry.devices.map fun device => (device.id, device.state)

/-- Publishes an event. -/
def publish (gateway : Gateway) (event : Event) : Gateway :=
  { gateway with bus := gateway.bus.publish event }

/-- The commands that expressions have issued since the last look. -/
def takeIssued (gateway : Gateway) : List DeviceCommand × Gateway :=
  (gateway.session.calls.filterMap fun call => DeviceCommand.ofArgs? call.args,
    { gateway with session := { gateway.session with calls := [] } })

/-- Gives a frame to the devices and publishes their changes.  When the gateway breaks down over
the frame, no device changes. -/
def dispatch (gateway : Gateway) (frame : Bytes) : List StateChange × Gateway :=
  let ((changes, registry), session) := (gateway.registry.dispatch frame).run gateway.session
  if session.broken then ([], { gateway with session })
  else
    (changes,
      { gateway with registry, session, bus := gateway.bus.publishAll (changes.map .stateChanged) })

/-- Gives frames to the devices in order. -/
def dispatchAll (gateway : Gateway) : List Bytes → List StateChange × Gateway
  | [] => ([], gateway)
  | frame :: rest =>
    let (changes, gateway) := gateway.dispatch frame
    let (more, gateway) := gateway.dispatchAll rest
    (changes ++ more, gateway)

/-- The frame of a command, or the reason why there is none. -/
def frame (gateway : Gateway) (command : DeviceCommand) : Except String Bytes × Gateway :=
  let (payload?, session) :=
    (gateway.registry.payload? command.deviceId command.command command.value?).run gateway.session
  let frame := match payload? with
    | none => .error "no payload"
    | some payload => (gateway.line.tx.frame payload).mapError TxError.message
  (frame, { gateway with session })

/-- Takes over the state that a command implies, and publishes the change. -/
def applyOptimistic (gateway : Gateway) (command : DeviceCommand) : Gateway :=
  let (change?, registry) :=
    gateway.registry.applyOptimistic command.deviceId command.command command.value?
  let gateway := { gateway with registry }
  match change? with
  | some change => gateway.publish (.stateChanged change)
  | none => gateway

/-- The lane of a command: asking for the state can wait. -/
def priority (command : String) : Priority := if command = "update" then .low else .high

/-- Makes the frame of a command and puts it into the queue, unless the gateway breaks down over
it. -/
def submit (gateway : Gateway) (command : DeviceCommand) : Except CommandError Nat × Gateway :=
  match gateway.registry.find? command.deviceId with
  | none => (.error (.unknownDevice command.deviceId), gateway)
  | some device =>
    let (frame, gateway) := gateway.frame command
    if gateway.broken then (.error .closed, gateway)
    else
      match frame with
      | .error reason =>
        let message := "failed to build command '" ++ command.command ++ "': " ++ reason
        (.error (.notBuilt command.deviceId command.command),
          gateway.publish (.deviceError (some command.deviceId) .command message))
      | .ok frame =>
        let gateway := gateway.applyOptimistic command
        let (result, queue) := gateway.queue.enqueue
          { deviceId := command.deviceId
            frame := frame
            retry := device.entity.common.retryPolicy?.getD gateway.line.retry
            priority := priority command.command }
        (result, { gateway with queue })

/-- Carries out commands issued by expressions, first come first, and those that they issue in
turn, up to a number; the others are given up. -/
def runIssued : Nat → List DeviceCommand → Gateway → Gateway
  | 0, _, gateway => gateway
  | _, [], gateway => gateway
  | n + 1, command :: rest, gateway =>
    let (more, gateway) := (gateway.submit command).2.takeIssued
    runIssued n (rest ++ more) gateway

/-- Carries out the commands issued by expressions. -/
def finishIssued (gateway : Gateway) : Gateway :=
  let (issued, gateway) := gateway.takeIssued
  runIssued maxIssued issued gateway

/-- Receives octets; the changes that they cause. -/
def push (gateway : Gateway) (chunk : Bytes) : List StateChange × Gateway :=
  let (frames, assembler) := gateway.assembler.push chunk gateway.now
  let (changes, gateway) := { gateway with assembler }.dispatchAll frames
  (changes, gateway.finishIssued)

/-- Issues a command; its ticket on the queue. -/
def command (gateway : Gateway) (command : DeviceCommand) : Except CommandError Nat × Gateway :=
  let (result, gateway) := gateway.submit command
  (result, gateway.finishIssued)

/-- Stops the queue. -/
def shutdown (gateway : Gateway) : Gateway := { gateway with queue := gateway.queue.shutdown }

/-- All that the queue does at the present time. -/
def settle (gateway : Gateway) : Gateway :=
  { gateway with queue := gateway.queue.settle gateway.bus }

/-- All that the queue does in the next `ms` milliseconds. -/
def advance (gateway : Gateway) (ms : Nat) : Gateway :=
  { gateway with queue := gateway.queue.advance gateway.bus ms }

end Gateway

end PanelBus
