import PanelBus.Entity.Check
import PanelBus.Proofs.NumberField.Words
/-!
# What plain number fields say

A plain field is binary, without decimal places and without names.  Its value is the whole number
that its own octets stand for and depends on nothing else in the frame; there is none only when
the frame is too short.  A number too great to be kept is the one that the binary format has for it.
Which number octets stand for is said here by positional notation and balanced remainders, and not
by the way in which they are read.
-/

namespace PanelBus

open Json (Value)

namespace NumberField

/-- The field is binary, without decimal places and without names. -/
structure Plain (field : NumberField) : Prop where
  coding : field.coding = .binary
  precision : field.precision = 0
  mapping : field.mapping = []

/-- The number of octets that the field takes. -/
def size (field : NumberField) : Nat := max field.length 1

/-- The octets of a frame from the least significant one on. -/
def lowFirst (field : NumberField) (raw : Bytes) : Bytes :=
  match field.order with
  | .big => raw.reverse
  | .little => raw

/-- The whole number that octets of a frame stand for: that of their digits, or the number nearest
to zero with the same remainder if signed, of two the one below zero. -/
def standsFor (field : NumberField) (raw : Bytes) : Int :=
  let n : Nat := Nat.ofDigits 256 ((field.lowFirst raw).map UInt8.toNat)
  if field.signed then Int.bmod n (256 ^ raw.length) else n

variable {field : NumberField} {frame bytes raw : Bytes} {base : Nat}

theorem reverse_lowFirst (field : NumberField) (raw : Bytes) :
    (field.lowFirst raw).reverse = field.order.arrange raw := by
  unfold lowFirst ByteOrder.arrange
  cases field.order with
  | big => exact List.reverse_reverse raw
  | little => rfl

theorem toNatBE_arrange (field : NumberField) (raw : Bytes) :
    (field.order.arrange raw).toNatBE =
      Nat.ofDigits 256 ((field.lowFirst raw).map UInt8.toNat) := by
  rw [Bytes.toNatBE_eq_ofDigits, ← reverse_lowFirst, List.reverse_reverse]

/-! ## Binary numbers -/

theorem natAbs_binaryValue_lt (signed : Bool) (bytes : Bytes) :
    (binaryValue signed bytes).natAbs < 2 ^ 64 := by
  have hword : bytes.toNatBE % Word.count < 2 ^ 64 := Nat.mod_lt _ (by decide)
  have hrange : Word.range (min (8 * bytes.length) 64) ≤ 2 ^ 64 :=
    Nat.pow_le_pow_right (by decide) (Nat.min_le_right _ _)
  have hpos : 0 < Word.range (min (8 * bytes.length) 64 - 1) := Nat.two_pow_pos _
  unfold binaryValue
  dsimp only
  split <;> omega

theorem binaryValue_arrange (field : NumberField) (h : 1 ≤ raw.length ∧ raw.length ≤ 8) :
    binaryValue field.signed (field.order.arrange raw) = field.standsFor raw := by
  have hlength := ByteOrder.length_arrange field.order raw
  rw [binaryValue_eq_bmod field.signed (hlength.symm ▸ h), hlength, toNatBE_arrange]
  rfl

theorem natAbs_standsFor_lt (field : NumberField) (raw : Bytes) :
    (field.standsFor raw).natAbs < 256 ^ raw.length := by
  have hpos : 0 < 256 ^ raw.length := Nat.pow_pos (by decide)
  have hless : Nat.ofDigits 256 ((field.lowFirst raw).map UInt8.toNat) < 256 ^ raw.length := by
    rw [← toNatBE_arrange, ← ByteOrder.length_arrange field.order raw]
    exact Bytes.toNatBE_lt _
  unfold standsFor
  generalize Nat.ofDigits 256 ((field.lowFirst raw).map UInt8.toNat) = n at hless
  dsimp only
  split
  · have hlow := Int.le_bmod (x := (n : Int)) hpos
    have hhigh := Int.bmod_lt (x := (n : Int)) hpos
    omega
  · omega

/-! ## Values of fields -/

/-- Fields of any kind read their own octets only. -/
theorem decode?_congr (field : NumberField) {other : Bytes} {place : Nat}
    (h : ∀ i < field.size, frame[base + field.offset + i]? = other[place + field.offset + i]?) :
    field.decode? frame base = field.decode? other place := by
  have hraw := Bytes.slice?_congr (by unfold size; omega : 0 < field.size) h
  unfold size at hraw
  rw [decode?_eq_bind, decode?_eq_bind, hraw]

theorem decode?_reverse (field : NumberField) {other : Bytes} {place : Nat}
    (hraw : frame.slice? (base + field.offset) field.size = some raw)
    (hother : other.slice? (place + field.offset) field.size = some raw.reverse) :
    { field with order := .little }.decode? frame base =
      { field with order := .big }.decode? other place := by
  unfold size at hraw hother
  rw [decode?_eq_bind, decode?_eq_bind]
  dsimp only
  rw [hraw, hother]
  rfl

theorem Plain.decode?_eq (h : field.Plain) (frame : Bytes) (base : Nat) :
    field.decode? frame base =
      (frame.slice? (base + field.offset) field.size).bind fun raw =>
        toValue? (.ofInt (binaryValue field.signed (field.order.arrange raw))) := by
  rw [decode?_of_plain h.precision h.mapping]
  simp only [value?_of_binary h.coding, Option.bind_some]
  rfl

/-- Plain fields have no value only where the frame ends too early. -/
theorem Plain.decode?_eq_none_iff (h : field.Plain) :
    field.decode? frame base = none ↔ frame.length < base + field.offset + field.size := by
  rw [h.decode?_eq, ← Bytes.slice?_eq_none_iff]
  cases frame.slice? (base + field.offset) field.size with
  | none => exact iff_of_true rfl rfl
  | some raw =>
    rw [Option.bind_some, toValue?_ofInt_eq (natAbs_binaryValue_lt _ _)]
    exact iff_of_false (Option.some_ne_none _) (Option.some_ne_none _)

theorem Plain.decode?_of_slice (h : field.Plain)
    (hraw : frame.slice? (base + field.offset) field.size = some raw) (hsize : field.size ≤ 8) :
    field.decode? frame base =
      some (if (field.standsFor raw).natAbs < 9 * 10 ^ 15 then .int (field.standsFor raw)
        else .float (.ofInt (field.standsFor raw))) := by
  have hlength := Bytes.length_of_slice? hraw
  have hpos : 1 ≤ field.size := Nat.le_max_right _ _
  have hbinary : binaryValue field.signed (field.order.arrange raw) = field.standsFor raw :=
    binaryValue_arrange field (by omega)
  rw [h.decode?_eq, hraw, Option.bind_some, ← hbinary]
  exact toValue?_ofInt_eq (natAbs_binaryValue_lt _ _)

theorem Plain.decode?_of_short (h : field.Plain)
    (hraw : frame.slice? (base + field.offset) field.size = some raw) (hsize : field.size ≤ 6) :
    field.decode? frame base = some (.int (field.standsFor raw)) := by
  have hless : (field.standsFor raw).natAbs < 9 * 10 ^ 15 :=
    calc (field.standsFor raw).natAbs < 256 ^ raw.length := natAbs_standsFor_lt field raw
      _ ≤ 256 ^ 6 := Nat.pow_le_pow_right (by decide) (Bytes.length_of_slice? hraw ▸ hsize)
      _ < 9 * 10 ^ 15 := by decide
  rw [h.decode?_of_slice hraw (by omega), if_pos hless]

/-- Plain number fields are exact and local.  A plain field has a value exactly if its octets lie in
the frame, by sums of natural numbers, and sums of words find the same octets.  The value depends on
them only, and those that begin with the least significant one say what they say in reverse when
they begin with the most significant one.  The value is the whole number that they stand for: always
for up to six octets, and for up to eight if it is small enough, else the number that the binary
format has for it.  In a checked entity no number field of any coding leaves the words in which it
is read. -/
theorem decode?_exact :
    (∀ field : NumberField, field.Plain → ∀ (frame : Bytes) (base : Nat),
      (field.decode? frame base = none ↔ frame.length < base + field.offset + field.size) ∧
      (frame.length < Word.count →
        field.window? frame base = frame.slice? (base + field.offset) field.size) ∧
      (∀ (other : Bytes) (place : Nat),
        (∀ i < field.size, frame[base + field.offset + i]? = other[place + field.offset + i]?) →
          field.decode? frame base = field.decode? other place) ∧
      ∀ raw, frame.slice? (base + field.offset) field.size = some raw →
        (∀ (other : Bytes) (place : Nat),
          other.slice? (place + field.offset) field.size = some raw.reverse →
            { field with order := .little }.decode? frame base =
              { field with order := .big }.decode? other place) ∧
        (field.size ≤ 6 → field.decode? frame base = some (.int (field.standsFor raw))) ∧
        (field.size ≤ 8 → field.decode? frame base =
          some (if (field.standsFor raw).natAbs < 9 * 10 ^ 15 then .int (field.standsFor raw)
            else .float (.ofInt (field.standsFor raw))))) ∧
    ∀ entity : Entity, entity.validate = .ok () → ∀ entry ∈ entity.numbers,
      ∀ (frame : Bytes) (base : Nat), frame.length < Word.count →
        entry.2.decodeOnWords? frame base = some (entry.2.decode? frame base) := by
  refine ⟨fun field hplain frame base => ⟨hplain.decode?_eq_none_iff,
    window?_eq_slice? field base, fun other place => decode?_congr field, fun raw hraw =>
      ⟨fun other place => decode?_reverse field hraw, hplain.decode?_of_short hraw,
        hplain.decode?_of_slice hraw⟩⟩, ?_⟩
  intro entity hvalid entry hmem frame base hframe
  exact decodeOnWords?_eq base ((Entity.faultless_of_validate hvalid).2 entry hmem).2 hframe

theorem decode?_exact_two_octets :
    let field : NumberField := { offset := 1, length := 2, signed := true, order := .little }
    let packed : NumberField := { length := 8, coding := .bcd }
    let entity : Entity := ⟨.ofId "meter", .sensor { number? := some packed }⟩
    let frame : Bytes := [0xA0, 0x01, 0xFE, 0xFF, 0x99, 0x99, 0x99, 0x99]
    field.Plain ∧ frame.slice? 2 2 = some [0xFE, 0xFF] ∧ entity.validate = .ok () ∧
      field.decode? frame 1 = some (.int (-2)) ∧ field.decode? frame 6 = none ∧
      packed.decodeOnWords? frame 0 = some (packed.decode? frame 0) := by
  intro field packed entity frame
  have hplain : field.Plain := ⟨rfl, rfl, rfl⟩
  have hraw : frame.slice? (1 + field.offset) field.size = some [0xFE, 0xFF] := rfl
  have hnumber : field.standsFor [0xFE, 0xFF] = -2 := by decide
  have hvalid : entity.validate = .ok () := by decide
  refine ⟨hplain, hraw, hvalid, ?_, ?_, ?_⟩
  · have hvalue := ((decode?_exact.1 field hplain frame 1).2.2.2 [0xFE, 0xFF] hraw).2.1 (by decide)
    exact hnumber ▸ hvalue
  · exact (decode?_exact.1 field hplain frame 6).1.2 (by decide)
  · exact decode?_exact.2 entity hvalid ("state_number", packed) List.mem_cons_self frame 0
      (by decide)

end NumberField

end PanelBus
