import PanelBus.Command
import PanelBus.Proofs.NumberField
/-!
# Numbers in commands

A command writes the number of an argument in as many octets as it has for it, and a number field of
the same shape reads them.  Both codings give back what was written wherever it fits; a binary
number too far below zero does not fit, and loses its upper octets.
-/

namespace PanelBus.Command

open Json (Value)

variable {command : Command} {field : NumberField} {frame octets : Bytes} {base : Nat} {n : Int}

/-- The number of octets that the command has for an argument. -/
def width (command : Command) : Nat := max 1 (min command.length 8)

/-- The number of an argument times the factor. -/
def scaled? (command : Command) (v : Value) : Option Binary64 :=
  (numberOf? v).map fun x =>
    match command.multiply? with
    | some factor => x.mul factor
    | none => x

/-- That number rounded to a whole one, if it is finite. -/
def whole? (command : Command) (v : Value) : Option Int :=
  (command.scaled? v).bind Binary64.round?

/-- The field reads as many octets as the command writes, in the same order, and gives their
number. -/
structure ReadBy (command : Command) (field : NumberField) : Prop where
  length : max field.length 1 = command.width
  order : field.order = command.order
  precision : field.precision = 0
  mapping : field.mapping = []

theorem width_of_le (h : 1 ≤ command.length ∧ command.length ≤ 4) :
    command.width = command.length := by
  unfold width
  omega

theorem encode?_eq (command : Command) (v : Value) :
    command.encode? v = (command.scaled? v).bind fun x =>
      (match command.coding with
        | .binary => binaryOctets? command.width x.roundWord
        | .bcd => bcdOctets? command.width x.roundWord).map command.order.arrange := by
  unfold encode? scaled?
  cases numberOf? v with
  | none => rfl
  | some x =>
      cases command.coding with
      | binary => exact (Option.map_eq_bind ..).symm
      | bcd => exact (Option.map_eq_bind ..).symm

theorem scaled?_int (hfactor : command.multiply? = none) (n : Int) :
    command.scaled? (.int n) = some (.ofInt n) := by
  unfold scaled?
  rw [hfactor]
  rfl

theorem whole?_int (hfactor : command.multiply? = none) (hsmall : n.natAbs < 2 ^ 53) :
    command.whole? (.int n) = some n := by
  unfold whole?
  rw [scaled?_int hfactor, Option.bind_some, Binary64.round?_ofInt hsmall]

theorem roundWord_of_round? {x : Binary64} (h : x.round? = some n) :
    x.roundWord = Word.clamp n := by
  unfold Binary64.roundWord
  rw [h]
  rfl

theorem decode?_of_readBy (h : command.ReadBy field)
    (hslice : frame.slice? (base + field.offset) command.width = some octets) :
    field.decode? frame base =
      (field.value? (command.order.arrange octets)).bind NumberField.toValue? := by
  rw [NumberField.decode?_of_plain h.precision h.mapping, h.length, hslice, h.order]
  rfl

/-! ## Binary numbers -/

theorem toNatBE_low {len : Nat} (hlen : len ≤ 8) (n : Int) :
    ((Bytes.ofNatBE len (n % (Word.count : Int)).toNat).toNatBE : Int) = n % 256 ^ len := by
  have hdvd : (256 : Int) ^ len ∣ (Word.count : Int) := pow_dvd_pow (256 : Int) hlen
  have hpos : 0 ≤ n % (Word.count : Int) := Int.emod_nonneg n (by decide)
  rw [Bytes.toNatBE_ofNatBE, Int.natCast_emod, Int.toNat_of_nonneg hpos, Int.natCast_pow]
  exact Int.emod_emod_of_dvd n hdvd

theorem pow_le {len : Nat} (hlen : len ≤ 4) : (256 : Int) ^ len ≤ 0x100000000 :=
  (pow_le_pow_right₀ (by decide) hlen : (256 : Int) ^ len ≤ 256 ^ 4)

theorem clamp_of_lt {len : Nat} (hlen : len ≤ 4) (h : n < 256 ^ len) :
    Word.clamp n = max n Word.least := by
  have hpow := pow_le hlen
  have hgreatest : Word.greatest = 0x7FFFFFFFFFFFFFFF := rfl
  unfold Word.clamp
  split
  · omega
  · rw [if_neg (by omega)]
    omega

theorem le_clamp {len : Nat} (hlen : len ≤ 4) (h : 256 ^ len ≤ n) : 256 ^ len ≤ Word.clamp n := by
  have hpow := pow_le hlen
  have hleast : Word.least = -0x8000000000000000 := rfl
  have hgreatest : Word.greatest = 0x7FFFFFFFFFFFFFFF := rfl
  unfold Word.clamp
  split
  · omega
  · split <;> omega

theorem binaryOctets?_of_le {len : Nat} (h : 256 ^ len ≤ n) : binaryOctets? len n = none :=
  if_pos (by exact_mod_cast h)

theorem binaryOctets?_of_lt {len : Nat} (h : n < 256 ^ len) :
    binaryOctets? len n = some (Bytes.ofNatBE len (n % (Word.count : Int)).toNat) :=
  if_neg (by exact_mod_cast not_le.2 h)

/-- Octets that stand for a whole number of their length, two's complement for one below zero, are
read as that number. -/
theorem decode?_binary (hlength : 1 ≤ command.length ∧ command.length ≤ 4)
    (h : command.ReadBy field) (hcoding : field.coding = .binary)
    (hsigned : field.signed = decide (n < 0))
    (hslice : frame.slice? (base + field.offset) command.length = some octets)
    (hlow : -(256 ^ command.length / 2) ≤ n) (hhigh : n < 256 ^ command.length)
    (hvalue : ((command.order.arrange octets).toNatBE : Int) = n % 256 ^ command.length) :
    field.decode? frame base = some (.int n) := by
  have hbytes : (command.order.arrange octets).length = command.length := by
    rw [ByteOrder.length_arrange, Bytes.length_of_slice? hslice]
  have hpow := pow_le hlength.2
  have hread := NumberField.binaryValue_eq ⟨hlength.1, by omega⟩ hbytes hlow hhigh hvalue
  rw [decode?_of_readBy h (width_of_le hlength ▸ hslice), NumberField.value?_of_binary hcoding,
    Option.bind_some, hsigned, hread]
  exact NumberField.toValue?_ofInt (by omega)

/-- The octets of a whole number that is not too great. -/
def lowOctets (command : Command) (n : Int) : Bytes :=
  command.order.arrange
    (Bytes.ofNatBE command.length (Word.clamp n % (Word.count : Int)).toNat)

theorem length_lowOctets (command : Command) (n : Int) :
    (command.lowOctets n).length = command.length := by
  unfold lowOctets
  rw [ByteOrder.length_arrange, Bytes.length_ofNatBE]

theorem toNatBE_lowOctets (hlength : command.length ≤ 4) (h : n < 256 ^ command.length) :
    ((command.order.arrange (command.lowOctets n)).toNatBE : Int) =
      max n Word.least % 256 ^ command.length := by
  unfold lowOctets
  rw [ByteOrder.arrange_arrange, toNatBE_low (by omega), clamp_of_lt hlength h]

theorem encode?_of_scaled? (hcoding : command.coding = .binary)
    (hlength : 1 ≤ command.length ∧ command.length ≤ 4) {v : Value} {x : Binary64}
    (h : command.scaled? v = some x) :
    command.encode? v =
      (binaryOctets? command.length x.roundWord).map command.order.arrange := by
  rw [encode?_eq, h, hcoding, width_of_le hlength]
  rfl

theorem encode?_of_whole? (hcoding : command.coding = .binary)
    (hlength : 1 ≤ command.length ∧ command.length ≤ 4) {v : Value}
    (h : command.whole? v = some n) :
    command.encode? v =
      if 256 ^ command.length ≤ n then none else some (command.lowOctets n) := by
  obtain ⟨x, hx, hround⟩ := Option.bind_eq_some_iff.1 h
  rw [encode?_of_scaled? hcoding hlength hx, roundWord_of_round? hround]
  split
  · next hlarge =>
    rw [binaryOctets?_of_le (le_clamp hlength.2 hlarge)]
    rfl
  · next hfits =>
    -- The clamp only lifts numbers below all words, which does not take them out of the range.
    have hclamp := clamp_of_lt hlength.2 (not_le.1 hfits)
    have hpos : (0 : Int) < 256 ^ command.length := pow_pos (by decide) _
    have hleast : Word.least = -0x8000000000000000 := rfl
    rw [binaryOctets?_of_lt (by omega)]
    rfl

/-- A command with a binary number in one to four octets writes nothing for an argument that is no
number, for an infinity above, and for numbers that have too many octets.  Every other whole number
gives the octets of its two's complement; a plain field of the same shape, signed exactly for
numbers below zero, reads it back if it fits.  Of a number too far below zero, or of the least word
if that is greater, only the lower octets are written. -/
theorem encode?_binary (hcoding : command.coding = .binary)
    (hlength : 1 ≤ command.length ∧ command.length ≤ 4) (v : Value) :
    (command.scaled? v = none ∨ command.scaled? v = some (.infinity false) →
        command.encode? v = none) ∧
      (∀ n, command.whole? v = some n → 256 ^ command.length ≤ n → command.encode? v = none) ∧
      (∀ n, command.whole? v = some n → n < 256 ^ command.length →
        ∃ octets, command.encode? v = some octets ∧ octets.length = command.length ∧
          (-(256 ^ command.length / 2) ≤ n → ∀ (field : NumberField) (frame : Bytes) (base : Nat),
            command.ReadBy field → field.coding = .binary → field.signed = decide (n < 0) →
              frame.slice? (base + field.offset) command.length = some octets →
                field.decode? frame base = some (.int n)) ∧
          (n < -(256 ^ command.length / 2) →
            ((command.order.arrange octets).toNatBE : Int) =
              max n Word.least % 256 ^ command.length)) ∧
      (command.multiply? = none →
        ∀ n : Int, n.natAbs < 2 ^ 53 → command.whole? (.int n) = some n) := by
  refine ⟨?_, ?_, ?_, fun hfactor n hsmall => whole?_int hfactor hsmall⟩
  · rintro (hnone | hinfinite)
    · rw [encode?_eq, hnone]
      rfl
    · have hgreatest : (256 : Int) ^ command.length ≤ Word.greatest :=
        (pow_le hlength.2).trans (by decide)
      rw [encode?_of_scaled? hcoding hlength hinfinite]
      exact congrArg _ (binaryOctets?_of_le hgreatest)
  · intro n hn hlarge
    rw [encode?_of_whole? hcoding hlength hn, if_pos hlarge]
  · intro n hn hhigh
    have hvalue := toNatBE_lowOctets hlength.2 hhigh
    refine ⟨command.lowOctets n, ?_, length_lowOctets .., ?_, fun _ => hvalue⟩
    · rw [encode?_of_whole? hcoding hlength hn, if_neg (not_le.2 hhigh)]
    · intro hlow field frame base hread hfield hsigned hslice
      -- A number of at most four octets is far from the ends of the words.
      have hsame : max n Word.least = n := by
        have hpow := pow_le hlength.2
        have hleast : Word.least = -0x8000000000000000 := rfl
        omega
      rw [hsame] at hvalue
      exact decode?_binary hlength hread hfield hsigned hslice hlow hhigh hvalue

/-- Minus 12.8 times ten in two octets, the low one first. -/
theorem encode?_binary_tenths :
    let command : Command :=
      { length := 2, order := .little, multiply? := some (.ofInt 10) }
    let field : NumberField := { offset := 1, length := 2, order := .little, signed := true }
    command.whole? (.str "-12.8") = some (-128) ∧
      command.encode? (.str "-12.8") = some [0x80, 0xFF] ∧
      field.decode? [0x30, 0x41, 0x80, 0xFF] 1 = some (.int (-128)) := by
  intro command field
  have hwhole : command.whole? (.str "-12.8") = some (-128) := by decide
  have hencode : command.encode? (.str "-12.8") = some [0x80, 0xFF] := by decide
  have hcoding : command.coding = .binary := rfl
  obtain ⟨-, -, hfits, -⟩ := encode?_binary hcoding (by decide) (.str "-12.8")
  obtain ⟨octets, hoctets, -, hread, -⟩ := hfits (-128) hwhole (by decide)
  obtain rfl := Option.some.inj (hencode.symm.trans hoctets)
  exact ⟨hwhole, hencode, hread (by decide) field _ 1 ⟨rfl, rfl, rfl, rfl⟩ rfl rfl rfl⟩

/-- Minus 200 does not fit one octet, and the octet that is written stands for 56.  What is not a
number is written as zero. -/
theorem encode?_writes_another :
    let command : Command := { data := [0], valueOffset? := some 0 }
    let field : NumberField := { signed := true }
    (command.whole? (.int (-200)) = some (-200) ∧ (-200 : Int) < -(256 ^ command.length / 2) ∧
      command.encode? (.int (-200)) = some [0x38] ∧
      field.decode? [0x38] 0 = some (.int 56)) ∧
    command.whole? (.str "nan") = none ∧ command.encode? (.str "nan") = some [0] := by
  exact ⟨⟨by decide, by decide, by decide, rfl⟩, by decide, by decide⟩

/-! ## Binary-coded decimals -/

theorem bcdOctets?_eq_some {len : Nat} :
    bcdOctets? len n = some octets ↔
      (0 ≤ n ∧ n < 100 ^ len) ∧ Bcd.octets len n.toNat = octets := by
  have hpow : (Nat.pow 100 len : Int) = 100 ^ len := Int.natCast_pow 100 len
  unfold bcdOctets?
  rw [hpow, ite_eq_iff', Option.some_inj]
  constructor
  · rintro ⟨hfar, hnear⟩
    by_cases h : n < 0 ∨ 100 ^ len ≤ n
    · exact absurd (hfar h) (by simp)
    · exact ⟨by omega, hnear h⟩
  · rintro ⟨hfits, heq⟩
    exact ⟨fun h => by omega, fun _ => heq⟩

theorem encode?_bcd_eq_some (hcoding : command.coding = .bcd)
    (hfactor : command.multiply? = none) (hsmall : n.natAbs < 2 ^ 53) :
    command.encode? (.int n) = some octets ↔ (0 ≤ n ∧ n < 100 ^ command.width) ∧
      Bcd.octets command.width n.toNat = command.order.arrange octets := by
  have hround : (Binary64.ofInt n).roundWord = n := by
    rw [roundWord_of_round? (Binary64.round?_ofInt hsmall), Binary64.clamp_of_small (by omega)]
  rw [encode?_eq, scaled?_int hfactor, hcoding]
  simp only [Option.bind_some, hround, Option.map_eq_some_iff, bcdOctets?_eq_some]
  constructor
  · rintro ⟨_, ⟨hfits, rfl⟩, rfl⟩
    exact ⟨hfits, (ByteOrder.arrange_arrange ..).symm⟩
  · rintro ⟨hfits, heq⟩
    exact ⟨_, ⟨hfits, heq⟩, ByteOrder.arrange_arrange ..⟩

theorem decode?_bcd (h : command.ReadBy field) (hcoding : field.coding = .bcd)
    (hslice : frame.slice? (base + field.offset) command.width = some octets)
    (hsmall : Bcd.ofOctets (command.order.arrange octets) < 9 * 10 ^ 15) :
    field.decode? frame base =
      some (.int (Bcd.ofOctets (command.order.arrange octets))) := by
  have hvalue (bytes : Bytes) : field.value? bytes = some (.ofInt (Bcd.ofOctets bytes)) := by
    unfold NumberField.value?
    rw [hcoding]
  rw [decode?_of_readBy h hslice, hvalue, Option.bind_some]
  exact NumberField.toValue?_ofInt (by omega)

/-- A command with a decimal number and no factor writes exactly the whole numbers that have no
more digits than its octets.  A plain decimal field of the same shape reads back every number
written, and every number that such a field reads from decimal octets is written as these. -/
theorem encode?_bcd (hcoding : command.coding = .bcd) (hfactor : command.multiply? = none) :
    (∀ n : Int, n.natAbs < 9 * 10 ^ 15 →
      ((∃ octets, command.encode? (.int n) = some octets) ↔ 0 ≤ n ∧ n < 100 ^ command.width) ∧
      ∀ octets, command.encode? (.int n) = some octets →
        octets.length = command.width ∧ (∀ b ∈ octets, Bcd.IsDecimal b) ∧
          ∀ (field : NumberField) (frame : Bytes) (base : Nat),
            command.ReadBy field → field.coding = .bcd →
              frame.slice? (base + field.offset) command.width = some octets →
                field.decode? frame base = some (.int n)) ∧
      ∀ (field : NumberField) (frame : Bytes) (base : Nat) (octets : Bytes),
        command.ReadBy field → field.coding = .bcd →
          frame.slice? (base + field.offset) command.width = some octets →
            (∀ b ∈ octets, Bcd.IsDecimal b) →
              Bcd.ofOctets (command.order.arrange octets) < 9 * 10 ^ 15 →
                ∃ n : Int, field.decode? frame base = some (.int n) ∧
                  command.encode? (.int n) = some octets := by
  constructor
  · intro n hsmall
    have hencode (octets : Bytes) : command.encode? (.int n) = some octets ↔ _ :=
      encode?_bcd_eq_some hcoding hfactor (by omega)
    refine ⟨⟨fun ⟨octets, h⟩ => ((hencode octets).1 h).1, fun h => ?_⟩, ?_⟩
    · exact ⟨_, (hencode (command.order.arrange _)).2 ⟨h, (ByteOrder.arrange_arrange ..).symm⟩⟩
    · intro octets h
      obtain ⟨⟨hlow, hhigh⟩, heq⟩ := (hencode octets).1 h
      refine ⟨?_, fun b hb => ?_, fun field frame base hread hfield hslice => ?_⟩
      · rw [← ByteOrder.length_arrange command.order, ← heq, Bcd.length_octets]
      · have harranged : b ∈ command.order.arrange octets := ByteOrder.mem_arrange.2 hb
        rw [← heq] at harranged
        exact Bcd.isDecimal_of_mem_octets harranged
      · have hcast : ((100 ^ command.width : Nat) : Int) = 100 ^ command.width :=
          Int.natCast_pow 100 _
        have hvalue : Bcd.ofOctets (command.order.arrange octets) = n.toNat := by
          rw [← heq, Bcd.ofOctets_octets]
          exact Nat.mod_eq_of_lt (by omega)
        rw [decode?_bcd hread hfield hslice (by omega), hvalue, Int.toNat_of_nonneg hlow]
  · intro field frame base octets hread hfield hslice hdecimal hsmall
    -- Decimal octets are the digits of the number that they stand for, so writing it gives them.
    have harranged : ∀ b ∈ command.order.arrange octets, Bcd.IsDecimal b := fun b hb =>
      hdecimal b (ByteOrder.mem_arrange.1 hb)
    have hlength : (command.order.arrange octets).length = command.width := by
      rw [ByteOrder.length_arrange, Bytes.length_of_slice? hslice]
    have hfits := Bcd.ofOctets_lt harranged
    have hback := Bcd.octets_ofOctets harranged
    rw [hlength] at hfits hback
    refine ⟨_, decode?_bcd hread hfield hslice hsmall, ?_⟩
    rw [encode?_bcd_eq_some hcoding hfactor (by omega)]
    exact ⟨⟨Int.natCast_nonneg _, by exact_mod_cast hfits⟩, hback⟩

/-- Two hundred twenty-five in two octets, the low one first, and the greatest number in two. -/
theorem encode?_bcd_tenths :
    let command : Command := { length := 2, order := .little, coding := .bcd }
    let field : NumberField := { offset := 1, length := 2, order := .little, coding := .bcd }
    command.encode? (.int 225) = some [0x25, 0x02] ∧
      field.decode? [0x30, 0x41, 0x25, 0x02] 1 = some (.int 225) ∧
      ∃ n : Int, field.decode? [0x30, 0x41, 0x99, 0x99] 1 = some (.int n) ∧
        command.encode? (.int n) = some [0x99, 0x99] := by
  intro command field
  have hencode : command.encode? (.int 225) = some [0x25, 0x02] := by decide
  have hplain : command.ReadBy field := ⟨rfl, rfl, rfl, rfl⟩
  have hcoding : command.coding = .bcd := rfl
  obtain ⟨hwritten, hagain⟩ := encode?_bcd hcoding rfl
  obtain ⟨-, hback⟩ := hwritten 225 (by decide)
  obtain ⟨-, -, hread⟩ := hback _ hencode
  have hgreatest : Bcd.ofOctets (command.order.arrange [0x99, 0x99]) = 9999 := by decide
  exact ⟨hencode, hread field _ 1 hplain rfl rfl,
    hagain field [0x30, 0x41, 0x99, 0x99] 1 _ hplain rfl rfl (by simp [Bcd.IsDecimal]) (by omega)⟩

end PanelBus.Command
