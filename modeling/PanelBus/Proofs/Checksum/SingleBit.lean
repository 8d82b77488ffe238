import PanelBus.Proofs.Checksum
import PanelBus.Proofs.Crc16
/-!
# Single bits turned

A bit that is turned on the line shows in the checksum, unless the check does not cover it or throws
it away again.  Sums and cyclic checks keep two different octets apart whatever follows them; an
exclusive or changes by just the bit that was turned.
-/

namespace PanelBus.Checksum

open Function (Injective)

/-- The octet whose only bit is that one. -/
def bitMask (bit : Fin 8) : UInt8 := 1 <<< UInt8.ofNat bit

/-- The octets with one bit of the octet at a position turned. -/
def turnAt (position : Nat) (bit : Fin 8) (octets : Bytes) : Bytes :=
  octets.modify position (· ^^^ bitMask bit)

/-- What stands in a frame before its footer. -/
structure Parts where
  header : Bytes
  data : Bytes
  /-- The octets of the checksum. -/
  check : Bytes
deriving DecidableEq, Repr

/-- The parts of a frame as it is sent. -/
def sent (checksum : Checksum) (header data : Bytes) : Parts :=
  ⟨header, data, checksum.compute header data⟩

/-- Where an octet of a frame stands. -/
inductive Place where
  | header (position : Nat)
  | data (position : Nat)
  | check (position : Nat)
deriving DecidableEq, Repr

namespace Parts

/-- Whether there is an octet at that place. -/
def Has (parts : Parts) : Place → Prop
  | .header position => position < parts.header.length
  | .data position => position < parts.data.length
  | .check position => position < parts.check.length

/-- The parts with one bit of the octet at that place turned. -/
def turn (parts : Parts) (bit : Fin 8) : Place → Parts
  | .header position => { parts with header := turnAt position bit parts.header }
  | .data position => { parts with data := turnAt position bit parts.data }
  | .check position => { parts with check := turnAt position bit parts.check }

/-- The whole frame. -/
def frame (parts : Parts) (footer : Bytes) : Bytes :=
  parts.header ++ parts.data ++ parts.check ++ footer

end Parts

/-- The checksum is the same when that bit is turned: it stands in a header that the check does not
cover, it is the bit that the check clears, or it is the highest bit of the first data octet and
turns the correction for small first octets as well. -/
def Overlooks (checksum : Checksum) (data : Bytes) (bit : Fin 8) : Place → Prop
  | .header _ =>
    checksum ∈ [.single .addNoHeader, .single .xorNoHeader, .single .samsungRx, .single .samsungTx,
      .double .crcCcittXmodem] ∨
    checksum = .single .samsungXor ∧ bit = 7
  | .data position =>
    checksum = .single .samsungXor ∧ bit = 7 ∨
    checksum = .single .samsungRx ∧ position = 0 ∧ bit = 7 ∧ ∃ first ∈ data.head?,
      first &&& 0x7F < 0x7C
  | .check _ => False

/-! ## One octet turned -/

/-- One bit of one of the octets is turned. -/
def Turned (bit : Fin 8) (octets turned : Bytes) : Prop :=
  ∃ before b after, octets = before ++ b :: after ∧
    turned = before ++ (b ^^^ bitMask bit) :: after

variable {bit : Fin 8} {octets turned header data : Bytes} {position : Nat}

theorem turned_turnAt (bit : Fin 8) (h : position < octets.length) :
    Turned bit octets (turnAt position bit octets) := by
  obtain ⟨before, b, after, hoctets, -, hturned⟩ := List.exists_of_modify (· ^^^ bitMask bit) h
  exact ⟨before, b, after, hoctets, hturned⟩

theorem Turned.append_left (h : Turned bit octets turned) (before : Bytes) :
    Turned bit (before ++ octets) (before ++ turned) := by
  obtain ⟨first, b, last, rfl, rfl⟩ := h
  exact ⟨before ++ first, b, last, by rw [List.append_assoc], by rw [List.append_assoc]⟩

theorem Turned.append_right (h : Turned bit octets turned) (after : Bytes) :
    Turned bit (octets ++ after) (turned ++ after) := by
  obtain ⟨first, b, last, rfl, rfl⟩ := h
  refine ⟨first, b, last ++ after, ?_, ?_⟩
  · rw [List.append_assoc, List.cons_append]
  · rw [List.append_assoc, List.cons_append]

theorem bitMask_ne_zero (bit : Fin 8) : bitMask bit ≠ 0 := by
  revert bit
  decide

theorem xor_ne_self (b : UInt8) (bit : Fin 8) : b ^^^ bitMask bit ≠ b := by
  intro h
  refine bitMask_ne_zero bit ((UInt8.xor_right_inj b).mp ?_)
  rw [h, UInt8.xor_zero]

/-- A fold that keeps different octets and different results apart shows the bit. -/
theorem Turned.foldl_ne {State : Type} {f : State → UInt8 → State}
    (hstate : ∀ b, Injective (f · b)) (hoctet : ∀ state, Injective (f state))
    (h : Turned bit octets turned) (start : State) :
    turned.foldl f start ≠ octets.foldl f start := by
  obtain ⟨before, b, after, rfl, rfl⟩ := h
  have hkept : Injective fun state => after.foldl f state := by
    clear hoctet
    induction after with
    | nil => exact Function.injective_id
    | cons c rest ih => exact ih.comp (hstate c)
  rw [List.foldl_append, List.foldl_append, List.foldl_cons, List.foldl_cons]
  intro hsame
  exact xor_ne_self b bit (hoctet _ (hkept hsame))

theorem Turned.sumFrom_ne (h : Turned bit octets turned) (start : UInt8) :
    sumFrom start turned ≠ sumFrom start octets := by
  refine h.foldl_ne (fun b => ?_) (fun state => ?_) start
  · exact fun s t => (UInt8.add_left_inj b).mp
  · exact fun b c => (UInt8.add_right_inj state).mp

theorem xorFrom_xor (start mask : UInt8) (bytes : Bytes) :
    xorFrom (start ^^^ mask) bytes = xorFrom start bytes ^^^ mask := by
  unfold xorFrom
  induction bytes generalizing start with
  | nil => rfl
  | cons b rest ih =>
      rw [List.foldl_cons, List.foldl_cons, ← ih]
      congr 1
      rw [UInt8.xor_assoc, UInt8.xor_assoc, UInt8.xor_comm mask]

theorem Turned.xorFrom_eq (h : Turned bit octets turned) (start : UInt8) :
    xorFrom start turned = xorFrom start octets ^^^ bitMask bit := by
  obtain ⟨before, b, after, rfl, rfl⟩ := h
  have hsplit (c : UInt8) : xorFrom start (before ++ c :: after) =
      xorFrom (xorFrom start before ^^^ c) after := by
    unfold xorFrom
    rw [List.foldl_append, List.foldl_cons]
  rw [hsplit, hsplit, ← UInt8.xor_assoc, xorFrom_xor]

theorem Turned.xorFrom_ne (h : Turned bit octets turned) (start : UInt8) :
    xorFrom start turned ≠ xorFrom start octets := by
  rw [h.xorFrom_eq]
  exact xor_ne_self _ bit

/-! ## Checks with one octet -/

theorem Turned.bestinSum_ne (h : Turned bit octets turned) :
    turned.foldl (fun sum b => (b ^^^ sum) + 1) 3 ≠
      octets.foldl (fun sum b => (b ^^^ sum) + 1) 3 := by
  refine h.foldl_ne (fun b => ?_) (fun sum => ?_) 3
  · exact fun s t hsame => (UInt8.xor_right_inj b).mp ((UInt8.add_left_inj 1).mp hsame)
  · exact fun b c hsame => (UInt8.xor_left_inj sum).mp ((UInt8.add_left_inj 1).mp hsame)

theorem xor_and (a b mask : UInt8) : (a ^^^ b) &&& mask = (a &&& mask) ^^^ (b &&& mask) := by
  apply UInt8.toNat_inj.mp
  rw [UInt8.toNat_and, UInt8.toNat_xor, UInt8.toNat_xor, UInt8.toNat_and, UInt8.toNat_and,
    Nat.and_xor_distrib_right]

/-- With its highest bit cleared an exclusive or loses that bit and no other. -/
theorem Turned.cleared_iff (h : Turned bit octets turned) :
    xorFrom 0 turned &&& 0x7F = xorFrom 0 octets &&& 0x7F ↔ bit = 7 := by
  have hmask : ∀ bit, bitMask bit &&& 0x7F = 0 ↔ bit = 7 := by decide
  rw [h.xorFrom_eq, xor_and, ← hmask]
  constructor
  · intro hsame
    exact (UInt8.xor_right_inj (xorFrom 0 octets &&& 0x7F)).mp (hsame.trans UInt8.xor_zero.symm)
  · intro hzero
    rw [hzero, UInt8.xor_zero]

/-- The correction of the check for received frames. -/
def correction (first : UInt8) : UInt8 := if first < 0x7C then 0x80 else 0

theorem compute_samsungRx (header : Bytes) (first : UInt8) (rest : Bytes) :
    Single.compute .samsungRx header (first :: rest) =
      xorFrom 0xB0 (first :: rest) ^^^ correction first := by
  unfold Single.compute correction
  dsimp only
  split
  · rfl
  · rw [UInt8.xor_zero]

/-- Only the highest bit can turn the correction so that nothing is left of it, and it does so when
the other bits are small. -/
theorem correction_iff (first : UInt8) (bit : Fin 8) :
    bitMask bit ^^^ correction (first ^^^ bitMask bit) = correction first ↔
      bit = 7 ∧ first &&& 0x7F < 0x7C := by
  have hall : ∀ n : Fin 256, ∀ bit : Fin 8,
      bitMask bit ^^^ correction (UInt8.ofNat n ^^^ bitMask bit) = correction (UInt8.ofNat n) ↔
        bit = 7 ∧ UInt8.ofNat n &&& 0x7F < 0x7C := by decide +kernel
  have hfirst := hall ⟨first.toNat, first.toNat_lt⟩ bit
  rwa [UInt8.ofNat_toNat] at hfirst

theorem compute_samsungRx_turnAt_iff (header : Bytes) (h : position < data.length) :
    Single.compute .samsungRx header (turnAt position bit data) =
        Single.compute .samsungRx header data ↔
      position = 0 ∧ bit = 7 ∧ ∃ first ∈ data.head?, first &&& 0x7F < 0x7C := by
  have hxor := (turned_turnAt bit h).xorFrom_eq 0xB0
  cases data with
  | nil => exact absurd h (Nat.not_lt_zero position)
  | cons first rest =>
      cases position with
      | zero =>
          change Single.compute .samsungRx header ((first ^^^ bitMask bit) :: rest) = _ ↔ _
          rw [compute_samsungRx, compute_samsungRx]
          change xorFrom 0xB0 ((first ^^^ bitMask bit) :: rest) = _ at hxor
          rw [hxor, UInt8.xor_assoc, UInt8.xor_right_inj, correction_iff]
          simp
      | succ later =>
          change Single.compute .samsungRx header (first :: turnAt later bit rest) = _ ↔ _
          rw [compute_samsungRx, compute_samsungRx]
          change xorFrom 0xB0 (first :: turnAt later bit rest) = _ at hxor
          rw [hxor]
          refine iff_of_false (fun hsame => ?_) (fun hfirst => Nat.succ_ne_zero later hfirst.1)
          exact xor_ne_self _ bit ((UInt8.xor_left_inj _).mp hsame)

theorem Single.compute_data_iff {kind : Single} (hkind : kind ≠ .samsungRx) (header : Bytes)
    (h : Turned bit data turned) :
    kind.compute header turned = kind.compute header data ↔ kind = .samsungXor ∧ bit = 7 := by
  have hcovered := h.append_left header
  cases kind with
  | add => exact iff_of_false (hcovered.sumFrom_ne 0) nofun
  | addNoHeader => exact iff_of_false (h.sumFrom_ne 0) nofun
  | xor => exact iff_of_false (hcovered.xorFrom_ne 0) nofun
  | xorNoHeader => exact iff_of_false (h.xorFrom_ne 0) nofun
  | samsungRx => exact absurd rfl hkind
  | samsungTx =>
      refine iff_of_false (fun hsame => ?_) nofun
      exact h.xorFrom_ne 0 ((UInt8.xor_left_inj 0x80).mp hsame)
  | samsungXor => exact hcovered.cleared_iff.trans (iff_and_self.mpr fun _ => rfl)
  | bestinSum => exact iff_of_false hcovered.bestinSum_ne nofun

theorem Single.compute_header_iff (kind : Single) (h : Turned bit header turned) (data : Bytes) :
    kind.compute turned data = kind.compute header data ↔
      kind.includesHeader = false ∨ kind = .samsungXor ∧ bit = 7 := by
  have hcovered := h.append_right data
  cases kind with
  | add => exact iff_of_false (hcovered.sumFrom_ne 0) (by simp [includesHeader])
  | addNoHeader => exact iff_of_true rfl (.inl rfl)
  | xor => exact iff_of_false (hcovered.xorFrom_ne 0) (by simp [includesHeader])
  | xorNoHeader => exact iff_of_true rfl (.inl rfl)
  | samsungRx => exact iff_of_true rfl (.inl rfl)
  | samsungTx => exact iff_of_true rfl (.inl rfl)
  | samsungXor => exact hcovered.cleared_iff.trans (by simp [includesHeader])
  | bestinSum => exact iff_of_false hcovered.bestinSum_ne (by simp [includesHeader])

/-! ## Checks with two octets -/

theorem Turned.xorAdd_ne (h : Turned bit (header ++ data) turned) {turnedHeader turnedData : Bytes}
    (hturned : turnedHeader ++ turnedData = turned) :
    Double.compute .xorAdd turnedHeader turnedData ≠ Double.compute .xorAdd header data := by
  subst hturned
  intro hsame
  exact h.xorFrom_ne 0 (List.cons_eq_cons.mp hsame).1

theorem Turned.crc_ne (h : Turned bit data turned) (header : Bytes) :
    Double.compute .crcCcittXmodem header turned ≠ Double.compute .crcCcittXmodem header data := by
  intro hsame
  exact h.foldl_ne Crc16.feed_left_injective Crc16.feed_right_injective 0
    (Crc16.octets_injective hsame)

theorem Double.compute_data_ne (kind : Double) (header : Bytes) (h : Turned bit data turned) :
    kind.compute header turned ≠ kind.compute header data := by
  cases kind with
  | xorAdd => exact (h.append_left header).xorAdd_ne rfl
  | crcCcittXmodem => exact h.crc_ne header

theorem Double.compute_header_iff (kind : Double) (h : Turned bit header turned) (data : Bytes) :
    kind.compute turned data = kind.compute header data ↔ kind = .crcCcittXmodem := by
  cases kind with
  | xorAdd => exact iff_of_false ((h.append_right data).xorAdd_ne rfl) nofun
  | crcCcittXmodem => exact iff_of_true rfl rfl

/-! ## All checks -/

variable {checksum : Checksum}

theorem verify_eq_true_iff (hchecked : checksum ≠ .unchecked) (header data check : Bytes) :
    checksum.verify header data check = true ↔ check = checksum.compute header data := by
  cases checksum with
  | unchecked => exact absurd rfl hchecked
  | single kind => exact beq_iff_eq
  | double kind => exact beq_iff_eq

theorem compute_header_iff (hchecked : checksum ≠ .unchecked) (h : Turned bit header turned)
    (data : Bytes) : checksum.compute header data = checksum.compute turned data ↔
      checksum.Overlooks data bit (.header position) := by
  unfold Overlooks
  rw [eq_comm]
  cases checksum with
  | unchecked => exact absurd rfl hchecked
  | single kind =>
      change [_] = [_] ↔ _
      rw [List.singleton_inj, kind.compute_header_iff h data]
      cases kind <;> simp [Single.includesHeader]
  | double kind =>
      refine (kind.compute_header_iff h data).trans ?_
      cases kind <;> simp

theorem compute_data_iff (hchecked : checksum ≠ .unchecked) (header : Bytes)
    (h : position < data.length) :
    checksum.compute header data = checksum.compute header (turnAt position bit data) ↔
      checksum.Overlooks data bit (.data position) := by
  have hturned := turned_turnAt bit h
  unfold Overlooks
  rw [eq_comm]
  cases checksum with
  | unchecked => exact absurd rfl hchecked
  | single kind =>
      change [_] = [_] ↔ _
      rw [List.singleton_inj]
      by_cases hkind : kind = .samsungRx
      · subst hkind
        rw [compute_samsungRx_turnAt_iff header h]
        simp
      · rw [Single.compute_data_iff hkind header hturned]
        simp [hkind]
  | double kind => exact iff_of_false (kind.compute_data_ne header hturned) (by simp)

/-- **Which bits that are turned go unnoticed.**  Whatever the check, header, data and footer, a
frame as it is sent is valid, by its parts and as a whole; and when one bit of its header, data or
checksum is turned, it is valid exactly if the check overlooks that bit. -/
theorem verify_turn_iff (checksum : Checksum) (hchecked : checksum ≠ .unchecked)
    (header data footer : Bytes) :
    let parts := checksum.sent header data
    (checksum.verify parts.header parts.data parts.check = true ∧
      checksum.verifyFrame (parts.frame footer) header.length footer.length = true) ∧
    ∀ place, parts.Has place → ∀ bit,
      let turned := parts.turn bit place
      (checksum.verify turned.header turned.data turned.check = true ↔
        checksum.Overlooks data bit place) ∧
      (checksum.verifyFrame (turned.frame footer) header.length footer.length = true ↔
        checksum.Overlooks data bit place) := by
  intro parts
  have hsent := verify_compute checksum header data
  refine ⟨⟨hsent, verifyFrame_compute checksum header data footer⟩, ?_⟩
  intro place hplace bit turned
  have hverify : checksum.verify turned.header turned.data turned.check = true ↔
      checksum.Overlooks data bit place := by
    rw [verify_eq_true_iff hchecked]
    cases place with
    | header position => exact compute_header_iff hchecked (turned_turnAt bit hplace) data
    | data position => exact compute_data_iff hchecked header hplace
    | check position =>
        obtain ⟨before, b, after, hsent, hturned⟩ := turned_turnAt bit hplace
        refine iff_of_false (fun hsame => xor_ne_self b bit ?_) id
        have hcheck := hturned.symm.trans (hsame.trans hsent)
        exact (List.cons_eq_cons.mp (List.append_cancel_left hcheck)).1
  have hheader : turned.header.length = header.length := by
    cases place with
    | header position => exact List.length_modify _ _ _
    | data position => rfl
    | check position => rfl
  have hwidth : turned.check.length = checksum.width := by
    cases place with
    | header position => exact length_compute checksum header data
    | data position => exact length_compute checksum header data
    | check position => exact (List.length_modify _ _ _).trans (length_compute checksum header data)
  refine ⟨hverify, ?_⟩
  rw [← hheader]
  exact (Bool.eq_iff_iff.mp (verifyFrame_append checksum _ _ footer hwidth)).trans hverify

/-- The highest bit of a small first octet turns the correction too; its lowest bit shows. -/
theorem verify_turn_iff_corrected :
    let checksum := Checksum.single .samsungRx
    let parts := checksum.sent [0xB0] [0x30, 0x41]
    checksum ≠ .unchecked ∧ parts.Has (.data 0) ∧
      parts.turn 7 (.data 0) = ⟨[0xB0], [0xB0, 0x41], [0x41]⟩ ∧
      checksum.verifyFrame [0xB0, 0xB0, 0x41, 0x41, 0x0D] 1 1 = true ∧
      checksum.verifyFrame [0xB0, 0x31, 0x41, 0x41, 0x0D] 1 1 = false := by
  intro checksum parts
  have hchecked : checksum ≠ .unchecked := nofun
  have hplace : parts.Has (.data 0) := Nat.zero_lt_two
  have hmain := (verify_turn_iff checksum hchecked [0xB0] [0x30, 0x41] [0x0D]).2 (.data 0) hplace
  have hhighest : checksum.Overlooks [0x30, 0x41] 7 (.data 0) :=
    .inr ⟨rfl, rfl, rfl, 0x30, rfl, by decide⟩
  have hlowest : ¬checksum.Overlooks [0x30, 0x41] 0 (.data 0) := by
    rintro (⟨-, hbit⟩ | ⟨-, -, hbit, -⟩)
    · exact absurd hbit (by decide)
    · exact absurd hbit (by decide)
  refine ⟨hchecked, hplace, by decide, (hmain 7).2.mpr hhighest, ?_⟩
  exact Bool.eq_false_iff.mpr fun hvalid => hlowest ((hmain 0).2.mp hvalid)

end PanelBus.Checksum
