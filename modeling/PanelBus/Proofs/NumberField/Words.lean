import PanelBus.Proofs.Bytes
import PanelBus.Proofs.NumberField
/-!
# Reading numbers with words

A reader that keeps every sum, product and difference in a word of fixed size has no result for one
that does not fit.  Here number fields are read in that way, with such a failure told apart from a
frame that holds no number.  The fields of a checked entity are short enough for it never to occur,
in any coding, and both readings agree.
-/

namespace PanelBus

open Json (Value)

/-! ## Operations on words -/

namespace Word

/-- A whole number that has to fit a signed word. -/
def fitSigned? (n : Int) : Option Int := if holds n then some n else none

/-- The signed word with the same bits as a word. -/
def asSigned (n : Nat) : Int := if n < half then n else n - count

theorem fitSigned?_of_holds {n : Int} (h : least ≤ n ∧ n ≤ greatest) : fitSigned? n = some n := by
  unfold fitSigned? holds
  rw [decide_eq_true h.1, decide_eq_true h.2]
  rfl

theorem asSigned_of_lt {n : Nat} (h : n < half) : asSigned n = n := if_pos h

end Word

namespace NumberField

/-- The octets of the field between two words; with sums that are no words there are none. -/
def window? (field : NumberField) (frame : Bytes) (base : Nat) : Option Bytes := do
  let start ← Word.fit? Word.count (base + field.offset)
  let stop ← Word.fit? Word.count (start + max field.length 1)
  if stop ≤ frame.length then some ((frame.drop start).take (stop - start)) else none

/-- Puts an octet behind those of a word. -/
def pushOctet? (word : Nat) (b : UInt8) : Option Nat := do
  let shifted ← Word.fit? Word.count (word <<< 8)
  return shifted ||| b.toNat

/-- The number of two decimal digits, in an octet. -/
def decimals? (b : UInt8) : Option Nat := do
  let tens ← Word.fit? 256 (b.toNat / 16 * 10)
  Word.fit? 256 (tens + b.toNat % 16)

/-- Puts two decimal digits behind those of a word. -/
def pushDecimals? (word : Nat) (b : UInt8) : Option Nat := do
  let shifted ← Word.fit? Word.count (word * 100)
  let digits ← decimals? b
  Word.fit? Word.count (shifted + digits)

/-- The number whose two's complement in so many bits a word holds. -/
def signedWord? (bits word : Nat) : Option Int :=
  if bits < 64 then do
    let top ← if 1 ≤ bits then some (bits - 1) else none
    if word.testBit top then
      let range ← Word.fitSigned? (2 ^ bits)
      Word.fitSigned? (Word.asSigned word - range)
    else return Word.asSigned word
  else return Word.asSigned word

/-- The binary number of the octets, most significant first. -/
def binaryWord? (signed : Bool) (bytes : Bytes) : Option Int := do
  let word ← bytes.foldlM pushOctet? 0
  let width ← Word.fit? Word.count (bytes.length * 8)
  let bits ← Word.fit? Word.shortCount width
  if signed then signedWord? bits word else return word

/-- The number that the octets stand for, most significant first.  Without an outer value an
operation left its words, without an inner one the octets hold no number. -/
def valueOnWords? (field : NumberField) (bytes : Bytes) : Option (Option Binary64) :=
  match field.coding with
  | .binary => do
    let n ← binaryWord? field.signed bytes
    return some (.ofInt n)
  | .bcd => do
    let n ← bytes.foldlM pushDecimals? 0
    return some (.ofInt n)
  | .ascii => some (asciiValue? bytes)
  | .halfDegree => do
    let b ← bytes.head?
    return some (halfDegreeValue field.signed b)

/-- The name or the number that is shown for a number. -/
def present? (field : NumberField) (x : Binary64) : Option Value :=
  match field.nameOf? x with
  | some name => some (.str name)
  | none =>
    if 0 < field.precision then
      toValue? (x.div ((Binary64.ofInt 10).pow (places field.precision)))
    else toValue? x

/-- The value of the field in a frame, read with words.  Without an outer value an operation left
its words. -/
def decodeOnWords? (field : NumberField) (frame : Bytes) (base : Nat) : Option (Option Value) :=
  match field.window? frame base with
  | some raw => do
    let x? ← field.valueOnWords? (field.order.arrange raw)
    return x?.bind field.present?
  | none => some none

variable {field : NumberField} {frame bytes : Bytes} {word : Nat} {b : UInt8}

theorem decode?_eq_bind (field : NumberField) (frame : Bytes) (base : Nat) :
    field.decode? frame base =
      (frame.slice? (base + field.offset) (max field.length 1)).bind fun raw =>
        (field.value? (field.order.arrange raw)).bind field.present? := rfl

/-! ## The octets of a field -/

theorem window?_eq_slice? (field : NumberField) (base : Nat) (hframe : frame.length < Word.count) :
    field.window? frame base = frame.slice? (base + field.offset) (max field.length 1) :=
  Bytes.cutOnWords?_eq_slice? base field.offset (max field.length 1) hframe

/-! ## Digits -/

/-- There are no words with a free octet between two multiples of it. -/
theorem pushOctet?_eq (word : Nat) (b : UInt8) :
    pushOctet? word b = Word.fit? Word.count (word * 256 + b.toNat) := by
  have hcount : Word.count = 256 * 2 ^ 56 := rfl
  have hoctet : b.toNat < 2 ^ 8 := b.toNat_lt
  have hor : word <<< 8 + b.toNat = word <<< 8 ||| b.toNat :=
    Nat.shiftLeft_add_eq_or_of_lt hoctet word
  have hshift : word <<< 8 = word * 256 := Nat.shiftLeft_eq word 8
  unfold pushOctet?
  by_cases hfit : word <<< 8 < Word.count
  · rw [Word.fit?_of_lt hfit, Word.fit?_of_lt (by omega), ← hshift, hor]
    rfl
  · rw [Word.fit?_of_le (by omega), Word.fit?_of_le (by omega)]
    rfl

theorem decimals?_eq (b : UInt8) : decimals? b = some (Bcd.toNat b) := by
  have hoctet : b.toNat < 2 ^ 8 := b.toNat_lt
  unfold decimals?
  rw [Word.fit?_of_lt (by omega)]
  exact Word.fit?_of_lt (by omega)

theorem pushDecimals?_eq (word : Nat) (b : UInt8) :
    pushDecimals? word b = Word.fit? Word.count (word * 100 + Bcd.toNat b) := by
  unfold pushDecimals?
  rw [decimals?_eq]
  by_cases hfit : word * 100 < Word.count
  · rw [Word.fit?_of_lt hfit]
    rfl
  · rw [Word.fit?_of_le (by omega), Word.fit?_of_le (by omega)]
    rfl

/-- Digits are read step by step exactly if their number is a word: that of the digits before is no
greater. -/
theorem foldlM_fit?_eq {base : Nat} {digit : UInt8 → Nat} (hbase : 1 ≤ base) (bytes : Bytes) :
    bytes.foldlM (fun word b => Word.fit? Word.count (word * base + digit b)) 0 =
      Word.fit? Word.count (Digits.read base digit bytes) := by
  induction bytes using List.reverseRecOn with
  | nil => rfl
  | append_singleton before last ih =>
      have hgrows : Digits.read base digit before ≤ Digits.read base digit before * base :=
        Nat.le_mul_of_pos_right _ hbase
      rw [Digits.read_concat, List.foldlM_append, ih]
      by_cases hfit : Digits.read base digit before < Word.count
      · rw [Word.fit?_of_lt hfit, Option.bind_eq_bind, Option.bind_some, List.foldlM_cons]
        exact bind_pure _
      · rw [Word.fit?_of_le (by omega), Word.fit?_of_le (by omega)]
        rfl

theorem foldlM_pushOctet?_of_length_le (h : bytes.length ≤ 8) :
    bytes.foldlM pushOctet? 0 = some bytes.toNatBE := by
  have hstep : pushOctet? = fun word b => Word.fit? Word.count (word * 256 + b.toNat) :=
    funext fun word => funext fun b => pushOctet?_eq word b
  rw [hstep, foldlM_fit?_eq (by decide)]
  exact Word.fit?_of_lt ((Bytes.toNatBE_lt bytes).trans_le (Nat.pow_le_pow_right (by decide) h))

theorem foldlM_pushDecimals?_of_length_le (h : bytes.length ≤ 8) :
    bytes.foldlM pushDecimals? 0 = some (Bcd.ofOctets bytes) := by
  have hstep : pushDecimals? = fun word b => Word.fit? Word.count (word * 100 + Bcd.toNat b) :=
    funext fun word => funext fun b => pushDecimals?_eq word b
  have hless : Bcd.ofOctets bytes < Word.count := by
    have hle := Bcd.ofOctets_le bytes
    have hpow : 100 ^ bytes.length ≤ 100 ^ 8 := Nat.pow_le_pow_right (by decide) h
    have hcount : Word.count = 2 ^ 64 := rfl
    omega
  rw [hstep, foldlM_fit?_eq (by decide)]
  exact Word.fit?_of_lt hless

/-! ## Signs -/

/-- The top bit of a word of so many bits is set from the middle of its range on. -/
theorem testBit_top {bits : Nat} (hword : word < 2 * 2 ^ bits) :
    word.testBit bits = decide (2 ^ bits ≤ word) := by
  have hquotient : word / 2 ^ bits < 2 := (Nat.div_lt_iff_lt_mul (Nat.two_pow_pos bits)).2 hword
  rw [Nat.testBit_eq_decide_div_mod_eq, Nat.mod_eq_of_lt hquotient, decide_eq_decide,
    ← Nat.one_le_div_iff (Nat.two_pow_pos bits)]
  omega

theorem signedWord?_of_lt {bits : Nat} (hbits : 1 ≤ bits ∧ bits < 63) (hword : word < 2 ^ bits) :
    signedWord? bits word =
      some (if 2 ^ (bits - 1) ≤ word then (word : Int) - (2 ^ bits : Nat) else word) := by
  have hdouble : 2 ^ bits = 2 * 2 ^ (bits - 1) := by
    rw [← Nat.pow_succ']
    congr 1
    omega
  have hsmall : 2 ^ bits ≤ 2 ^ 62 := Nat.pow_le_pow_right (by decide) (by omega)
  have hcast : (2 : Int) ^ bits = (2 ^ bits : Nat) := (Int.natCast_pow 2 bits).symm
  have hhalf : Word.half = 2 ^ 63 := rfl
  have hleast : Word.least = -2 ^ 63 := rfl
  have hgreatest : Word.greatest = 2 ^ 63 - 1 := rfl
  unfold signedWord?
  rw [if_pos (by omega), if_pos hbits.1, Option.bind_eq_bind, Option.bind_some]
  dsimp only
  rw [testBit_top (hdouble ▸ hword), Word.asSigned_of_lt (by omega), hcast,
    Word.fitSigned?_of_holds (by omega), Option.bind_eq_bind, Option.bind_some,
    Word.fitSigned?_of_holds (by omega)]
  simp only [decide_eq_true_eq]
  split <;> rfl

theorem signedWord?_full (word : Nat) :
    signedWord? 64 word = some (if 2 ^ 63 ≤ word then (word : Int) - (2 ^ 64 : Nat) else word) := by
  unfold signedWord? Word.asSigned Word.half Word.count
  rw [if_neg (by decide)]
  refine congrArg some ?_
  split
  · rw [if_neg (by omega)]
  · rw [if_pos (by omega)]
    rfl

/-- Up to eight octets have a binary number that words can hold, with a sign and without. -/
theorem binaryWord?_eq (signed : Bool) (h : 1 ≤ bytes.length ∧ bytes.length ≤ 8) :
    binaryWord? signed bytes = some (binaryValue signed bytes) := by
  have hless : bytes.toNatBE < 2 ^ (8 * bytes.length) := by
    rw [Nat.pow_mul]
    exact Bytes.toNatBE_lt bytes
  have hword : bytes.toNatBE < Word.count :=
    (Bytes.toNatBE_lt bytes).trans_le (Nat.pow_le_pow_right (by decide) h.2)
  have hsigned : signedWord? (8 * bytes.length) bytes.toNatBE =
      some (if 2 ^ (8 * bytes.length - 1) ≤ bytes.toNatBE then
        (bytes.toNatBE : Int) - (2 ^ (8 * bytes.length) : Nat) else bytes.toNatBE) := by
    by_cases hfull : bytes.length = 8
    · rw [hfull]
      exact signedWord?_full _
    · exact signedWord?_of_lt (by omega) hless
  have hcount : Word.count = 2 ^ 64 := rfl
  have hshort : Word.shortCount = 2 ^ 32 := rfl
  unfold binaryWord? binaryValue Word.range
  dsimp only
  rw [foldlM_pushOctet?_of_length_le h.2, Option.bind_eq_bind, Option.bind_some,
    Word.fit?_of_lt (by omega), Option.bind_some, Word.fit?_of_lt (by omega), Option.bind_some,
    Nat.mul_comm, hsigned, Nat.mod_eq_of_lt hword, Nat.min_eq_left (by omega)]
  cases signed with
  | true => simp only [if_true, true_and, Nat.pow_eq]
  | false => rfl

/-! ## Values -/

/-- No coding leaves the words for octets as many as a checked field has. -/
theorem valueOnWords?_eq (field : NumberField) (h : 1 ≤ bytes.length ∧ bytes.length ≤ 8) :
    field.valueOnWords? bytes = some (field.value? bytes) := by
  unfold valueOnWords? value?
  cases field.coding with
  | binary =>
      dsimp only
      rw [binaryWord?_eq field.signed h]
      rfl
  | bcd =>
      dsimp only
      rw [foldlM_pushDecimals?_of_length_le h.2]
      rfl
  | ascii => rfl
  | halfDegree =>
      obtain ⟨first, rest, rfl⟩ := List.exists_cons_of_length_pos h.1
      rfl

theorem decodeOnWords?_eq (base : Nat) (hlength : field.length ≤ 8)
    (hframe : frame.length < Word.count) :
    field.decodeOnWords? frame base = some (field.decode? frame base) := by
  unfold decodeOnWords?
  rw [window?_eq_slice? field base hframe, decode?_eq_bind]
  cases hraw : frame.slice? (base + field.offset) (max field.length 1) with
  | none => rfl
  | some raw =>
      have hsize : (field.order.arrange raw).length = max field.length 1 := by
        rw [ByteOrder.length_arrange, Bytes.length_of_slice? hraw]
      dsimp only
      rw [valueOnWords?_eq field (by omega)]
      rfl

end NumberField

end PanelBus
