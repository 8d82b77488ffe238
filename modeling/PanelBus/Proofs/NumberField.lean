import PanelBus.NumberField
import PanelBus.Proofs.Binary64.Whole
import PanelBus.Proofs.Digits
/-!
# Plain number fields

A field without decimal places and without names gives the number that its octets stand for.  Whole
numbers below `9 * 10 ^ 15` come out as they are.
-/

namespace PanelBus

open Json (Value)

theorem ByteOrder.arrange_arrange (order : ByteOrder) (bytes : Bytes) :
    order.arrange (order.arrange bytes) = bytes := by
  cases order with
  | big => rfl
  | little => exact List.reverse_reverse bytes

theorem ByteOrder.length_arrange (order : ByteOrder) (bytes : Bytes) :
    (order.arrange bytes).length = bytes.length := by
  cases order with
  | big => rfl
  | little => exact List.length_reverse

theorem ByteOrder.mem_arrange {order : ByteOrder} {bytes : Bytes} {b : UInt8} :
    b ∈ order.arrange bytes ↔ b ∈ bytes := by
  cases order with
  | big => exact Iff.rfl
  | little => exact List.mem_reverse

namespace NumberField

variable {field : NumberField} {n : Int} {bytes : Bytes}

theorem toValue?_ofInt (h : n.natAbs < 9 * 10 ^ 15) :
    toValue? (Binary64.ofInt n) = some (.int n) := by
  have hsmall : n.natAbs < 2 ^ 53 := by omega
  unfold toValue?
  rw [Binary64.isWhole_ofInt hsmall, Binary64.magnitudeBelow_ofInt hsmall,
    decide_eq_true (by omega), Binary64.truncWord_ofInt hsmall]
  rfl

/-- Greater whole numbers are rounded to the binary format, even those that it could keep. -/
theorem toValue?_ofInt_of_large (hlarge : 9 * 10 ^ 15 ≤ n.natAbs) (hword : n.natAbs < 2 ^ 64) :
    toValue? (Binary64.ofInt n) = some (.float (.ofInt n)) := by
  have hbelow : (Binary64.ofInt n).magnitudeBelow 9000000000000000 = false := by
    by_cases hexact : n.natAbs < 2 ^ 53
    · rw [Binary64.magnitudeBelow_ofInt hexact]
      exact decide_eq_false (by omega)
    · exact Binary64.magnitudeBelow_ofInt_of_large (by decide) (by omega)
  unfold toValue?
  rw [hbelow, Bool.and_false, Binary64.isFinite_ofInt hword]
  rfl

/-- Every number of words has a value, as a whole number or as one of the binary format. -/
theorem toValue?_ofInt_eq {n : Int} (h : n.natAbs < 2 ^ 64) :
    toValue? (.ofInt n) =
      some (if n.natAbs < 9 * 10 ^ 15 then .int n else .float (.ofInt n)) := by
  split
  · next hsmall => exact toValue?_ofInt hsmall
  · next hlarge => exact toValue?_ofInt_of_large (by omega) h

theorem value?_of_binary (hcoding : field.coding = .binary) (bytes : Bytes) :
    field.value? bytes = some (.ofInt (binaryValue field.signed bytes)) := by
  unfold value?
  rw [hcoding]

theorem decode?_of_plain (hprecision : field.precision = 0) (hmapping : field.mapping = [])
    (frame : Bytes) (base : Nat) :
    field.decode? frame base =
      (frame.slice? (base + field.offset) (max field.length 1)).bind fun raw =>
        (field.value? (field.order.arrange raw)).bind toValue? := by
  have hname (x : Binary64) : field.nameOf? x = none := by
    unfold nameOf?
    rw [hmapping, NameMap.get?, List.lookup_nil, ite_self]
  unfold decode?
  simp only [hname, hprecision, Nat.lt_irrefl, if_false]
  rfl

/-- Two's complement takes the upper half of the range below zero, as balanced remainders do. -/
theorem binaryValue_eq_bmod (signed : Bool) (h : 1 ≤ bytes.length ∧ bytes.length ≤ 8) :
    binaryValue signed bytes =
      if signed then Int.bmod bytes.toNatBE (256 ^ bytes.length) else bytes.toNatBE := by
  have hbits : min (8 * bytes.length) 64 = 8 * bytes.length := by omega
  have hrange : (256 : Nat) ^ bytes.length = Word.range (8 * bytes.length) :=
    (Nat.pow_mul 2 8 bytes.length).symm
  have hhalf : Word.range (8 * bytes.length) = 2 * Word.range (8 * bytes.length - 1) := by
    unfold Word.range
    rw [Nat.pow_eq, Nat.pow_eq, ← Nat.pow_succ']
    congr 1
    omega
  have hless : bytes.toNatBE < Word.range (8 * bytes.length) := hrange ▸ Bytes.toNatBE_lt bytes
  have hword : bytes.toNatBE < Word.count :=
    (Bytes.toNatBE_lt bytes).trans_le (Nat.pow_le_pow_right (by decide) h.2)
  unfold binaryValue Int.bmod
  rw [Nat.mod_eq_of_lt hword, hbits, hrange, Int.emod_eq_of_lt (by omega) (by omega)]
  dsimp only
  cases signed with
  | true =>
    simp only [true_and, if_true]
    split <;> split <;> omega
  | false => rfl

/-- Of a whole number that fits so many octets, its remainder tells which number it is: below zero
it is read as two's complement, and else without a sign. -/
theorem binaryValue_eq {len : Nat} (hlen : 1 ≤ len ∧ len ≤ 7) (hbytes : bytes.length = len)
    (hlow : -(256 ^ len / 2) ≤ n) (hhigh : n < 256 ^ len)
    (hvalue : (bytes.toNatBE : Int) = n % 256 ^ len) :
    binaryValue (decide (n < 0)) bytes = n := by
  have hcast : (256 : Int) ^ len = (256 ^ len : Nat) := (Int.natCast_pow 256 len).symm
  have heven : (256 : Nat) ^ len = 2 * (128 * 256 ^ (len - 1)) := by
    conv_lhs => rw [← Nat.sub_add_cancel hlen.1, Nat.pow_succ]
    omega
  rw [hcast] at hlow hhigh hvalue
  rw [binaryValue_eq_bmod _ (by omega), hbytes, hvalue]
  simp only [decide_eq_true_eq]
  split
  · next hnegative =>
    rw [Int.emod_bmod]
    exact Int.bmod_eq_of_le (by omega) (by omega)
  · next hnonneg => exact Int.emod_eq_of_lt (by omega) hhigh

end NumberField

end PanelBus
