import PanelBus.Checksum
/-!
# Line formats

A line is described by loose settings.  `Line.ofSettings` checks them and gives the two formats of
the line: how frames are cut out of what is received, and how payloads are framed for sending.
All times are in milliseconds.
-/

namespace PanelBus

/-- How often and in what rhythm an unconfirmed command is sent again. -/
structure RetryPolicy where
  attempts : Nat := 5
  /-- How long each sending waits for its confirmation. -/
  timeout : Nat := 2000
  /-- How long the line rests before a repetition. -/
  interval : Nat := 125
deriving DecidableEq, Repr

/-- The number of sendings, the first one included. -/
def RetryPolicy.total (retry : RetryPolicy) : Nat := retry.attempts + 1

/-- The settings of a line as they are written in a configuration. -/
structure LineSettings where
  rxHeader : Bytes := []
  rxFooter : Bytes := []
  rxLength? : Option Nat := none
  rxMinLength? : Option Nat := none
  rxMaxLength? : Option Nat := none
  /-- The check with one octet of received frames. -/
  rxChecksum? : Option String := none
  /-- The check with two octets of received frames. -/
  rxChecksum2? : Option String := none
  /-- The silence after which received octets are given up. -/
  rxTimeout? : Option Nat := none
  txHeader : Bytes := []
  txFooter : Bytes := []
  /-- The check with one octet of payloads that are sent. -/
  txChecksum? : Option String := none
  /-- The check with two octets of payloads that are sent. -/
  txChecksum2? : Option String := none
  txDelay? : Option Nat := none
  retryPolicy? : Option RetryPolicy := none
deriving DecidableEq, Repr

/-- How the end of a received frame is found. -/
inductive Framing where
  | fixed (length : Nat)
  | footer
  /-- A frame has the least length in this range with which its checksum holds. -/
  | sweep (least greatest : Nat)
deriving DecidableEq, Repr

/-- The format of received frames. -/
structure RxFormat where
  header : Bytes
  footer : Bytes
  framing : Framing
  checksum : Checksum
  /-- The silence after which received octets are given up. -/
  timeout? : Option Nat
  /-- The number of octets kept while a frame is incomplete. -/
  capacity : Nat
deriving DecidableEq, Repr

/-- The format of sent frames. -/
structure TxFormat where
  header : Bytes
  footer : Bytes
  checksum : Checksum
deriving DecidableEq, Repr

/-- A line: how it receives, how it sends and how long it rests between two sendings. -/
structure Line where
  rx : RxFormat
  tx : TxFormat
  txDelay : Nat
  /-- The repetition of commands whose device has no policy of its own. -/
  retry : RetryPolicy
deriving DecidableEq, Repr

namespace RxFormat

/-- The number of octets of a frame that are no data. -/
def overhead (rx : RxFormat) : Nat := rx.header.length + rx.checksum.width + rx.footer.length

/-- The room that a frame may need: its greatest length, and for frames that end with a footer the
least length with data. -/
def needed (rx : RxFormat) : Nat :=
  match rx.framing with
  | .fixed length => length
  | .footer => rx.overhead + 1
  | .sweep _ greatest => greatest

end RxFormat

/-- Why a payload cannot be sent. -/
inductive TxError where
  | emptyPayload
deriving DecidableEq, Repr

def TxError.message : TxError → String
  | .emptyPayload => "Length error: empty command payload"

/-- The frame of a payload: header, payload, checksum and footer. -/
def TxFormat.frame (tx : TxFormat) (payload : Bytes) : Except TxError Bytes :=
  if payload.isEmpty then .error .emptyPayload
  else .ok (tx.header ++ payload ++ tx.checksum.compute tx.header payload ++ tx.footer)

namespace Line

/-- Why settings describe no line. -/
inductive Fault where
  /-- A direction has no check or two. -/
  | checksum (error : Checksum.SelectError)
  | lengthWithRange
  | rangeUnchecked
  | rangeIncomplete
  | undelimited
  /-- The length under this key leaves no room for data. -/
  | tooShort (key : String) (length overhead : Nat)
  | rangeReversed (least greatest : Nat)
  /-- A frame may need more octets than are kept. -/
  | overCapacity (needed capacity : Nat)
deriving DecidableEq, Repr

def Fault.message : Fault → String
  | .checksum error => error.message
  | .lengthWithRange =>
    "Invalid framing: rx_length cannot be combined with rx_min_length/rx_max_length"
  | .rangeUnchecked =>
    "Invalid framing: checksum sweep framing requires rx_checksum or rx_checksum2"
  | .rangeIncomplete => "Invalid framing: rx_min_length and rx_max_length must be set together"
  | .undelimited =>
    "Invalid framing: one of rx_length, rx_min_length/rx_max_length or rx_footer is required"
  | .tooShort key length overhead =>
    "Invalid length: " ++ key ++ " " ++ toString length ++
      " must exceed header+checksum+footer (" ++ toString overhead ++ ")"
  | .rangeReversed least greatest =>
    "Invalid length: rx_min_length " ++ toString least ++ " is greater than rx_max_length " ++
      toString greatest
  | .overCapacity needed capacity =>
    "Invalid length: frame length " ++ toString needed ++ " exceeds buffer capacity " ++
      toString capacity

/-- The number of octets kept unless another one is asked for. -/
def defaultCapacity : Nat := 256

/-- The time between two sendings unless another one is set. -/
def defaultTxDelay : Nat := 50

/-- The framing that the length settings select, for frames with `overhead` octets that are no
data. -/
def selectFraming (settings : LineSettings) (checksum : Checksum) (overhead : Nat) :
    Except Fault Framing :=
  match settings.rxLength?, settings.rxMinLength?, settings.rxMaxLength? with
  | some _, some _, _ => .error .lengthWithRange
  | some _, none, some _ => .error .lengthWithRange
  | some length, none, none =>
    if length ≤ overhead then .error (.tooShort "rx_length" length overhead)
    else .ok (.fixed length)
  | none, some least, some greatest =>
    if checksum = .unchecked then .error .rangeUnchecked
    else if greatest < least then .error (.rangeReversed least greatest)
    else if least ≤ overhead then .error (.tooShort "rx_min_length" least overhead)
    else .ok (.sweep least greatest)
  | none, some _, none => .error .rangeIncomplete
  | none, none, some _ => .error .rangeIncomplete
  | none, none, none => if settings.rxFooter.isEmpty then .error .undelimited else .ok .footer

/-- The line with another number of octets kept, if that is enough. -/
def withCapacity (line : Line) (capacity : Nat) : Except Fault Line :=
  if capacity < line.rx.needed then .error (.overCapacity line.rx.needed capacity)
  else .ok { line with rx := { line.rx with capacity } }

/-- The line that the settings describe. -/
def ofSettings (settings : LineSettings) : Except Fault Line := do
  let rxChecksum ←
    (Checksum.select settings.rxChecksum? settings.rxChecksum2?).mapError Fault.checksum
  let txChecksum ←
    (Checksum.select settings.txChecksum? settings.txChecksum2?).mapError Fault.checksum
  let overhead := settings.rxHeader.length + rxChecksum.width + settings.rxFooter.length
  let framing ← selectFraming settings rxChecksum overhead
  let line : Line :=
    { rx :=
        { header := settings.rxHeader
          footer := settings.rxFooter
          framing := framing
          checksum := rxChecksum
          timeout? := settings.rxTimeout?
          capacity := defaultCapacity }
      tx :=
        { header := settings.txHeader
          footer := settings.txFooter
          checksum := txChecksum }
      txDelay := settings.txDelay?.getD defaultTxDelay
      retry := settings.retryPolicy?.getD {} }
  line.withCapacity defaultCapacity

end Line

end PanelBus
