import PanelBus.Crc16
/-!
# Frame checksums

Panels use one of ten checks.  Eight give one octet and two give two; some cover the frame header
and some only the data behind it.  A checksum stands between the data and the frame footer.
-/

namespace PanelBus

/-- The checks with one octet. -/
inductive Checksum.Single where
  | add
  | addNoHeader
  | xor
  | xorNoHeader
  /-- The exclusive or of the data from `0xB0` on, with bit 7 turned when the first data octet is
  below `0x7C`. -/
  | samsungRx
  /-- The exclusive or of the data with bit 7 turned. -/
  | samsungTx
  /-- The exclusive or of header and data with bit 7 cleared. -/
  | samsungXor
  /-- From 3 on, each octet of header and data goes in by exclusive or, then one is added. -/
  | bestinSum
deriving DecidableEq, Repr

/-- The checks with two octets. -/
inductive Checksum.Double where
  /-- The exclusive or of header and data, then the sum of header, data and that octet. -/
  | xorAdd
  /-- The cyclic check of the data from zero on, high octet first. -/
  | crcCcittXmodem
deriving DecidableEq, Repr

/-- How one direction of the line is checked. -/
inductive Checksum where
  | unchecked
  | single (kind : Checksum.Single)
  | double (kind : Checksum.Double)
deriving DecidableEq, Repr

namespace Checksum

/-- The sum of the octets from `start` on. -/
def sumFrom (start : UInt8) (bytes : Bytes) : UInt8 := bytes.foldl (· + ·) start

/-- The exclusive or of the octets from `start` on. -/
def xorFrom (start : UInt8) (bytes : Bytes) : UInt8 := bytes.foldl (· ^^^ ·) start

namespace Single

def all : List Single :=
  [.add, .addNoHeader, .xor, .xorNoHeader, .samsungRx, .samsungTx, .samsungXor, .bestinSum]

/-- The name of the check in configurations. -/
def name : Single → String
  | .add => "add"
  | .addNoHeader => "add_no_header"
  | .xor => "xor"
  | .xorNoHeader => "xor_no_header"
  | .samsungRx => "samsung_rx"
  | .samsungTx => "samsung_tx"
  | .samsungXor => "samsung_xor"
  | .bestinSum => "bestin_sum"

/-- Whether the check covers the header. -/
def includesHeader : Single → Bool
  | .add | .xor | .samsungXor | .bestinSum => true
  | .addNoHeader | .xorNoHeader | .samsungRx | .samsungTx => false

/-- The checksum octet of header and data. -/
def compute (kind : Single) (header data : Bytes) : UInt8 :=
  match kind with
  | .add => sumFrom 0 (header ++ data)
  | .addNoHeader => sumFrom 0 data
  | .xor => xorFrom 0 (header ++ data)
  | .xorNoHeader => xorFrom 0 data
  | .samsungRx =>
    match data with
    | first :: _ => if first < 0x7C then xorFrom 0xB0 data ^^^ 0x80 else xorFrom 0xB0 data
    | [] => 0xB0
  | .samsungTx => xorFrom 0 data ^^^ 0x80
  | .samsungXor => xorFrom 0 (header ++ data) &&& 0x7F
  | .bestinSum => (header ++ data).foldl (fun sum b => (b ^^^ sum) + 1) 3

end Single

namespace Double

def all : List Double := [.xorAdd, .crcCcittXmodem]

/-- The name of the check in configurations. -/
def name : Double → String
  | .xorAdd => "xor_add"
  | .crcCcittXmodem => "crc_ccitt_xmodem"

/-- Whether the check covers the header. -/
def includesHeader : Double → Bool
  | .xorAdd => true
  | .crcCcittXmodem => false

/-- The two checksum octets of header and data. -/
def compute (kind : Double) (header data : Bytes) : Bytes :=
  match kind with
  | .xorAdd =>
    let x := xorFrom 0 (header ++ data)
    [x, sumFrom 0 (header ++ data) + x]
  | .crcCcittXmodem => Crc16.octets (Crc16.compute 0 data)

end Double

/-- The name of the check in configurations. -/
def name : Checksum → String
  | .unchecked => "none"
  | .single kind => kind.name
  | .double kind => kind.name

/-- Whether the check covers the header, if there is a check. -/
def includesHeader? : Checksum → Option Bool
  | .unchecked => none
  | .single kind => some kind.includesHeader
  | .double kind => some kind.includesHeader

/-- The number of checksum octets in a frame. -/
def width : Checksum → Nat
  | .unchecked => 0
  | .single _ => 1
  | .double _ => 2

/-- The checksum octets of header and data. -/
def compute (checksum : Checksum) (header data : Bytes) : Bytes :=
  match checksum with
  | .unchecked => []
  | .single kind => [kind.compute header data]
  | .double kind => kind.compute header data

/-- Whether `octets` are the checksum of header and data.  Without a check everything is. -/
def verify (checksum : Checksum) (header data octets : Bytes) : Bool :=
  match checksum with
  | .unchecked => true
  | _ => octets == checksum.compute header data

/-- The checksum octets of a frame whose first `headerLen` octets are the header and whose data
end before offset `dataEnd`; both are cut to what the frame has. -/
def computeWithin (checksum : Checksum) (frame : Bytes) (headerLen dataEnd : Nat) : Bytes :=
  let covered := frame.take dataEnd
  checksum.compute (covered.take headerLen) (covered.drop headerLen)

/-- Whether the octets before the footer are the checksum of what stands before them.  A frame
that is shorter than header, checksum and footer together is not valid. -/
def verifyFrame (checksum : Checksum) (frame : Bytes) (headerLen footerLen : Nat) : Bool :=
  let width := checksum.width
  if frame.length < headerLen + width + footerLen then false
  else
    let dataEnd := frame.length - footerLen - width
    match checksum with
    | .unchecked => true
    | _ => (frame.drop dataEnd).take width == checksum.computeWithin frame headerLen dataEnd

/-- Why no check could be selected. -/
inductive SelectError where
  | unknown (name : String)
  /-- Both a check with one octet and a check with two are named. -/
  | conflict (one : Single) (two : Double)
deriving DecidableEq, Repr

def SelectError.message : SelectError → String
  | .unknown name => "Unknown checksum algorithm: " ++ name
  | .conflict one two => "Conflicting checksum selectors: " ++ one.name ++ " and " ++ two.name

/-- The check with one octet of that name. -/
def Single.ofName (name : String) : Except SelectError Single :=
  match Single.all.find? (·.name == name) with
  | some kind => .ok kind
  | none => .error (.unknown name)

/-- The check with two octets of that name. -/
def Double.ofName (name : String) : Except SelectError Double :=
  match Double.all.find? (·.name == name) with
  | some kind => .ok kind
  | none => .error (.unknown name)

/-- The check that the two selectors of a direction name.  The name `none` in the selector of the
checks with one octet counts as absent. -/
def select (one? two? : Option String) : Except SelectError Checksum := do
  let one ← (one?.filter (· != "none")).mapM Single.ofName
  let two ← two?.mapM Double.ofName
  match one, two with
  | none, none => return .unchecked
  | some kind, none => return .single kind
  | none, some kind => return .double kind
  | some a, some b => throw (.conflict a b)

@[simp] theorem length_compute (checksum : Checksum) (header data : Bytes) :
    (checksum.compute header data).length = checksum.width := by
  cases checksum with
  | unchecked => rfl
  | single kind => rfl
  | double kind => cases kind <;> rfl

end Checksum

end PanelBus
