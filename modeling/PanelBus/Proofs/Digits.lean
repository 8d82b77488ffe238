import Mathlib
import PanelBus.Bcd
import PanelBus.Bytes
/-!
# Numbers in octets, digit by digit

Octets hold a number in base 256 or, as binary-coded decimals, in base 100.  Writing goes from the
low end of the number and reading from the high end of the octets; the laws that join both are the
same in every base.
-/

namespace PanelBus.Digits

variable {base len n : Nat} {digit : UInt8 → Nat} {octet : Nat → UInt8} {bytes : Bytes}

/-- The number whose digits the octets hold, most significant first. -/
def read (base : Nat) (digit : UInt8 → Nat) (bytes : Bytes) : Nat :=
  bytes.foldl (fun acc b => acc * base + digit b) 0

/-- The octets of the last `len` digits of a number, most significant first. -/
def write (base : Nat) (octet : Nat → UInt8) (len n : Nat) : Bytes :=
  (List.range len).reverse.map fun i => octet (n / base ^ i)

theorem read_concat (base : Nat) (digit : UInt8 → Nat) (bytes : Bytes) (b : UInt8) :
    read base digit (bytes ++ [b]) = read base digit bytes * base + digit b :=
  List.foldl_concat _ _ _ _

theorem write_succ (base : Nat) (octet : Nat → UInt8) (len n : Nat) :
    write base octet (len + 1) n = write base octet len (n / base) ++ [octet n] := by
  have hshift (i : Nat) : octet (n / base ^ (i + 1)) = octet (n / base / base ^ i) := by
    rw [Nat.div_div_eq_div_mul, Nat.pow_succ']
  unfold write
  rw [List.range_succ_eq_map, List.reverse_cons, List.map_append, ← List.map_reverse, List.map_map]
  simp only [Function.comp_def, hshift, List.map_cons, List.map_nil, Nat.pow_zero, Nat.div_one]

theorem mem_write {b : UInt8} (h : b ∈ write base octet len n) : ∃ k, b = octet k := by
  obtain ⟨i, -, rfl⟩ := List.mem_map.1 h
  exact ⟨_, rfl⟩

/-- What is read is what was written, without the digits for which there was no octet. -/
theorem read_write (h : ∀ k, digit (octet k) = k % base) (len n : Nat) :
    read base digit (write base octet len n) = n % base ^ len := by
  induction len generalizing n with
  | zero =>
      rw [Nat.pow_zero, Nat.mod_one]
      rfl
  | succ len ih =>
      rw [write_succ, read_concat, ih, h, Nat.pow_succ', Nat.mod_mul]
      ring

theorem read_lt (h : ∀ b ∈ bytes, digit b < base) :
    read base digit bytes < base ^ bytes.length := by
  induction bytes using List.reverseRecOn with
  | nil => exact Nat.one_pos
  | append_singleton before last ih =>
      have hbefore := ih fun b hb => h b (List.mem_append_left _ hb)
      have hlast := h last (List.mem_append_right _ List.mem_cons_self)
      rw [read_concat, List.length_append, List.length_singleton, Nat.pow_succ]
      calc read base digit before * base + digit last
          < (read base digit before + 1) * base := by rw [Nat.add_one_mul]; omega
        _ ≤ base ^ before.length * base := Nat.mul_le_mul_right base hbefore

/-- Octets that hold digits of the base are written again. -/
theorem write_read (h : ∀ b ∈ bytes, digit b < base ∧ ∀ k, octet (k * base + digit b) = b) :
    write base octet bytes.length (read base digit bytes) = bytes := by
  induction bytes using List.reverseRecOn with
  | nil => rfl
  | append_singleton before last ih =>
      obtain ⟨hdigit, hoctet⟩ := h last (List.mem_append_right _ List.mem_cons_self)
      have hrest : (read base digit before * base + digit last) / base =
          read base digit before := by
        rw [Nat.mul_comm, Nat.mul_add_div (by omega), Nat.div_eq_of_lt hdigit, Nat.add_zero]
      rw [read_concat, List.length_append, List.length_singleton, write_succ, hrest, hoctet,
        ih fun b hb => h b (List.mem_append_left _ hb)]

end PanelBus.Digits

namespace PanelBus

/-! ## Binary numbers -/

namespace Bytes

theorem toNatBE_ofNatBE (len n : Nat) : (ofNatBE len n).toNatBE = n % 256 ^ len := by
  have hdigit (k : Nat) : (UInt8.ofNat k).toNat = k % 256 := UInt8.toNat_ofNat'
  exact Digits.read_write hdigit len n

theorem toNatBE_lt (bytes : Bytes) : bytes.toNatBE < 256 ^ bytes.length :=
  Digits.read_lt fun b _ => b.toNat_lt

theorem toNatBE_eq_ofDigits (bytes : Bytes) :
    bytes.toNatBE = Nat.ofDigits 256 (bytes.reverse.map UInt8.toNat) := by
  induction bytes using List.reverseRecOn with
  | nil => rfl
  | append_singleton before last ih =>
      have hread : toNatBE (before ++ [last]) = toNatBE before * 256 + last.toNat :=
        Digits.read_concat 256 _ before last
      rw [hread, ih, List.reverse_concat, List.map_cons, Nat.ofDigits_cons]
      ring

end Bytes

/-! ## Binary-coded decimals -/

namespace Bcd

/-- Both halves of the octet are decimal digits. -/
def IsDecimal (b : UInt8) : Prop := b.toNat / 16 ≤ 9 ∧ b.toNat % 16 ≤ 9

variable {bytes : Bytes} {b : UInt8}

theorem octets_eq_write (len n : Nat) :
    octets len n = Digits.write 100 (fun k => ofNat (k % 100)) len n := rfl

theorem isDecimal_ofNat (n : Nat) : IsDecimal (ofNat n) := by
  have hdigits : n / 10 % 10 * 16 + n % 10 < 256 := by omega
  unfold IsDecimal ofNat
  rw [UInt8.toNat_ofNat', Nat.mod_eq_of_lt hdigits]
  omega

theorem isDecimal_of_mem_octets {len n : Nat} (h : b ∈ octets len n) : IsDecimal b := by
  rw [octets_eq_write] at h
  obtain ⟨k, rfl⟩ := Digits.mem_write h
  exact isDecimal_ofNat _

theorem IsDecimal.toNat_lt (h : IsDecimal b) : toNat b < 100 := by
  obtain ⟨htens, hones⟩ := h
  unfold toNat
  omega

theorem IsDecimal.ofNat_toNat (h : IsDecimal b) : ofNat (toNat b) = b := by
  obtain ⟨htens, hones⟩ := h
  have hdigits : (toNat b) / 10 % 10 * 16 + (toNat b) % 10 = b.toNat := by
    unfold toNat
    omega
  unfold ofNat
  rw [hdigits]
  exact UInt8.ofNat_toNat

theorem ofOctets_octets (len n : Nat) : ofOctets (octets len n) = n % 100 ^ len := by
  have hdigit (k : Nat) : toNat (ofNat (k % 100)) = k % 100 := by
    rw [toNat_ofNat, Nat.mod_mod]
  exact Digits.read_write hdigit len n

theorem ofOctets_lt (h : ∀ b ∈ bytes, IsDecimal b) : ofOctets bytes < 100 ^ bytes.length :=
  Digits.read_lt fun b hb => (h b hb).toNat_lt

/-- Halves above nine make a digit of up to 165 in base 100. -/
theorem ofOctets_le (bytes : Bytes) : 3 * ofOctets bytes + 5 ≤ 5 * 100 ^ bytes.length := by
  induction bytes using List.reverseRecOn with
  | nil => exact le_refl _
  | append_singleton before last ih =>
      have hlast : toNat last ≤ 165 := by
        have hoctet : last.toNat < 256 := last.toNat_lt
        unfold toNat
        omega
      have hread : ofOctets (before ++ [last]) = ofOctets before * 100 + toNat last :=
        Digits.read_concat 100 _ before last
      rw [hread, List.length_append, List.length_singleton, Nat.pow_succ]
      omega

theorem octets_ofOctets (h : ∀ b ∈ bytes, IsDecimal b) :
    octets bytes.length (ofOctets bytes) = bytes := by
  rw [octets_eq_write]
  refine Digits.write_read fun b hb => ⟨(h b hb).toNat_lt, fun k => ?_⟩
  have hdigit : (k * 100 + toNat b) % 100 = toNat b := by
    have := (h b hb).toNat_lt
    omega
  rw [hdigit, (h b hb).ofNat_toNat]

end Bcd

end PanelBus
