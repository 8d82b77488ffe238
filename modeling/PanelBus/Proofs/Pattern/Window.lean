import PanelBus.Pattern.Basic
import PanelBus.Proofs.Bytes
/-!
# The window of a pattern

A pattern fits a frame if its window lies in the frame and the octets there have the bits that it
selects.  Both are said here bit by bit over the natural numbers; sums of words lead to the same
answer.
-/

namespace PanelBus.Pattern

variable {pattern : Pattern} {frame other before : Bytes} {base place i : Nat}

/-! ## The comparison -/

/-- Whether the pattern compares that bit of the octet at a position: one that its mask has, and
every one where there is no mask, the mask ends before the position or holds nothing for it. -/
def selects (pattern : Pattern) (i bit : Nat) : Bool :=
  match pattern.mask? with
  | none => true
  | some (.uniform bits) => bits.toNat.testBit bit
  | some (.perOctet list) =>
    match list[i]? with
    | none => true
    | some none => true
    | some (some bits) => bits.toNat.testBit bit

/-- The window of the pattern, its offset counted from `base`, lies in the frame, and its octets
have the selected bits of those that the pattern expects. -/
structure Stands (pattern : Pattern) (frame : Bytes) (base : Nat) : Prop where
  inside : pattern.offset + base + pattern.data.length ≤ frame.length
  alike : ∀ i actual expected, frame[pattern.offset + base + i]? = some actual →
    pattern.data[i]? = some expected →
    ∀ bit < 8, pattern.selects i bit = true → actual.toNat.testBit bit = expected.toNat.testBit bit

/-- The comparison as words carry it out: with checked sums, and without a mask octet by octet. -/
def fitsOnWords (pattern : Pattern) (frame : Bytes) (base : Nat) : Bool :=
  match frame.cutOnWords? pattern.offset base pattern.data.length with
  | none => false
  | some window =>
    match pattern.mask? with
    | none => window == pattern.data
    | some mask => (window.zip pattern.data).zipIdx.all fun ((actual, expected), i) =>
      agree (mask.bitsAt i) actual expected

/-! ## Octets -/

theorem eq_iff_testBit {a b : UInt8} :
    a = b ↔ ∀ bit < 8, a.toNat.testBit bit = b.toNat.testBit bit := by
  refine ⟨fun h _ _ => h ▸ rfl, fun h => UInt8.toBitVec_inj.1 (BitVec.eq_of_getLsbD_eq h)⟩

theorem and_eq_and_iff {a b m : UInt8} : a &&& m = b &&& m ↔
    ∀ bit < 8, m.toNat.testBit bit = true → a.toNat.testBit bit = b.toNat.testBit bit := by
  rw [eq_iff_testBit]
  refine forall₂_congr fun bit _ => ?_
  rw [UInt8.toNat_and, UInt8.toNat_and, Nat.testBit_and, Nat.testBit_and]
  cases m.toNat.testBit bit with
  | false =>
      rw [Bool.and_false, Bool.and_false]
      exact iff_of_true rfl fun h => absurd h Bool.false_ne_true
  | true =>
      rw [Bool.and_true, Bool.and_true]
      exact ⟨fun h _ => h, fun h => h rfl⟩

theorem agree_none_iff {actual expected : UInt8} :
    agree none actual expected = true ↔
      ∀ bit < 8, actual.toNat.testBit bit = expected.toNat.testBit bit :=
  beq_iff_eq.trans eq_iff_testBit

theorem agree_some_iff {m actual expected : UInt8} :
    agree (some m) actual expected = true ↔ ∀ bit < 8, m.toNat.testBit bit = true →
      actual.toNat.testBit bit = expected.toNat.testBit bit :=
  beq_iff_eq.trans and_eq_and_iff

/-- Two octets agree if they have the same selected bits. -/
theorem agree_bitsAt_iff {actual expected : UInt8} :
    agree (pattern.bitsAt i) actual expected = true ↔ ∀ bit < 8, pattern.selects i bit = true →
      actual.toNat.testBit bit = expected.toNat.testBit bit := by
  unfold bitsAt selects
  cases pattern.mask? with
  | none => simp only [Option.bind_none, forall_const, agree_none_iff]
  | some mask =>
    cases mask with
    | uniform bits => exact agree_some_iff
    | perOctet list =>
      simp only [Option.bind_some, Mask.bitsAt]
      cases list[i]? with
      | none => simp only [Option.join_none, forall_const, agree_none_iff]
      | some entry =>
        cases entry with
        | none => simp only [Option.join_some, forall_const, agree_none_iff]
        | some bits => exact agree_some_iff

/-! ## The window -/

theorem fits_of_slice? {window : Bytes}
    (h : frame.slice? (pattern.offset + base) pattern.data.length = some window) :
    pattern.fits frame base = true ↔ ∀ i actual expected, window[i]? = some actual →
      pattern.data[i]? = some expected → agree (pattern.bitsAt i) actual expected = true := by
  unfold fits
  rw [h, List.all_eq_true]
  constructor
  · intro hall i actual expected hactual hexpected
    exact hall ((actual, expected), i) (List.mk_mem_zipIdx_iff_getElem?.2
      (List.getElem?_zip_eq_some.2 ⟨hactual, hexpected⟩))
  · rintro hall ⟨⟨actual, expected⟩, i⟩ hmem
    obtain ⟨hactual, hexpected⟩ :=
      List.getElem?_zip_eq_some.1 (List.mk_mem_zipIdx_iff_getElem?.1 hmem)
    exact hall i actual expected hactual hexpected

theorem fits_iff_stands : pattern.fits frame base = true ↔ pattern.Stands frame base := by
  cases hwindow : frame.slice? (pattern.offset + base) pattern.data.length with
  | none =>
      have hshort := Bytes.slice?_eq_none_iff.1 hwindow
      unfold fits
      rw [hwindow]
      exact iff_of_false Bool.false_ne_true fun h => absurd h.inside (Nat.not_le.2 hshort)
  | some window =>
      have hinside := Bytes.le_length_of_slice? hwindow
      have hsame : ∀ i expected, pattern.data[i]? = some expected →
          window[i]? = frame[pattern.offset + base + i]? := fun i expected hexpected =>
        Bytes.getElem?_of_slice? hwindow (List.getElem?_eq_some_iff.1 hexpected).1
      rw [fits_of_slice? hwindow]
      constructor
      · refine fun hall => ⟨hinside, fun i actual expected hactual hexpected => ?_⟩
        rw [← hsame i expected hexpected] at hactual
        exact agree_bitsAt_iff.1 (hall i actual expected hactual hexpected)
      · intro hstands i actual expected hactual hexpected
        rw [hsame i expected hexpected] at hactual
        exact agree_bitsAt_iff.2 (hstands.alike i actual expected hactual hexpected)

theorem fitsOnWords_eq_fits (pattern : Pattern) (base : Nat) (hframe : frame.length < Word.count) :
    pattern.fitsOnWords frame base = pattern.fits frame base := by
  unfold fitsOnWords
  rw [Bytes.cutOnWords?_eq_slice? _ _ _ hframe]
  cases hwindow : frame.slice? (pattern.offset + base) pattern.data.length with
  | none => unfold fits; rw [hwindow]
  | some window =>
      cases hmask : pattern.mask? with
      | some mask => unfold fits bitsAt; rw [hwindow, hmask]; rfl
      | none =>
          have hlength := Bytes.length_of_slice? hwindow
          rw [Bool.eq_iff_iff, fits_of_slice? hwindow]
          unfold bitsAt
          rw [hmask]
          dsimp only
          rw [beq_iff_eq]
          constructor
          · rintro rfl i actual expected hactual hexpected
            exact beq_iff_eq.2 (Option.some.inj (hactual.symm.trans hexpected))
          · intro hall
            refine List.ext_getElem hlength fun i hi hi' => ?_
            exact beq_iff_eq.1 (hall i _ _ (List.getElem?_eq_getElem hi)
              (List.getElem?_eq_getElem hi'))

/-! ## What the comparison depends on -/

theorem Stands.congr (h : pattern.Stands frame base)
    (hinside : pattern.offset + place + pattern.data.length ≤ other.length)
    (hsame : ∀ i < pattern.data.length,
      other[pattern.offset + place + i]? = frame[pattern.offset + base + i]?) :
    pattern.Stands other place where
  inside := hinside
  alike i actual expected hactual hexpected := by
    have hi := (List.getElem?_eq_some_iff.1 hexpected).1
    exact h.alike i actual expected ((hsame i hi).symm.trans hactual) hexpected

theorem fits_congr
    (hinside : pattern.offset + base + pattern.data.length ≤ frame.length ↔
      pattern.offset + place + pattern.data.length ≤ other.length)
    (hsame : ∀ i < pattern.data.length,
      frame[pattern.offset + base + i]? = other[pattern.offset + place + i]?) :
    pattern.fits frame base = pattern.fits other place := by
  rw [Bool.eq_iff_iff, fits_iff_stands, fits_iff_stands]
  exact ⟨fun h => h.congr (hinside.1 h.inside) fun i hi => (hsame i hi).symm,
    fun h => h.congr (hinside.2 h.inside) hsame⟩

/-- Octets before the frame are made up for by counting from behind them. -/
theorem fits_append (pattern : Pattern) (before frame : Bytes) (base : Nat) :
    pattern.fits (before ++ frame) (base + before.length) = pattern.fits frame base := by
  refine fits_congr ?_ fun i _ => ?_
  · rw [List.length_append]
    omega
  · rw [List.getElem?_append_right (by omega)]
    congr 1
    omega

/-- Whoever asks for fewer bits asks for less. -/
theorem Stands.of_selects (h : pattern.Stands frame base) {mask? : Option Mask}
    (hfewer : ∀ i < pattern.data.length, ∀ bit < 8,
      { pattern with mask? }.selects i bit = true → pattern.selects i bit = true) :
    { pattern with mask? }.Stands frame base where
  inside := h.inside
  alike i actual expected hactual hexpected bit hbit hselects :=
    h.alike i actual expected hactual hexpected bit hbit
      (hfewer i (List.getElem?_eq_some_iff.1 hexpected).1 bit hbit hselects)

/-- The comparison of octets means what the pattern says, wherever its window lies.  The octets fit
exactly if the window lies in the frame, by sums of natural numbers, and those in it have the
selected bits of those expected; checked sums of words lead to the same answer.  So it makes no
difference what stands outside the window, octets put before the frame are made up for by a base
that is as much greater, and a mask from which bits are cleared fits wherever it did before. -/
theorem fits_exact (pattern : Pattern) (frame : Bytes) (base : Nat) :
    (pattern.fits frame base = true ↔ pattern.Stands frame base) ∧
    (frame.length < Word.count → pattern.fitsOnWords frame base = pattern.fits frame base) ∧
    (∀ (other : Bytes) (place : Nat),
      (pattern.offset + base + pattern.data.length ≤ frame.length ↔
        pattern.offset + place + pattern.data.length ≤ other.length) →
      (∀ i < pattern.data.length,
        frame[pattern.offset + base + i]? = other[pattern.offset + place + i]?) →
      pattern.fits frame base = pattern.fits other place) ∧
    (∀ before : Bytes,
      pattern.fits (before ++ frame) (base + before.length) = pattern.fits frame base) ∧
    ∀ mask? : Option Mask,
      (∀ i < pattern.data.length, ∀ bit < 8,
        { pattern with mask? }.selects i bit = true → pattern.selects i bit = true) →
      pattern.fits frame base = true → { pattern with mask? }.fits frame base = true :=
  ⟨fits_iff_stands, fitsOnWords_eq_fits pattern base, fun _ _ => fits_congr,
    fun before => fits_append pattern before frame base,
    fun _ hfewer hfits => fits_iff_stands.2 ((fits_iff_stands.1 hfits).of_selects hfewer)⟩

/-- The mask has some bits of the first octet, none that it names for the second and ends before the
third.  The frame is cut off in front of its window, and then the mask loses bits everywhere. -/
theorem fits_exact_masked :
    let pattern : Pattern :=
      { offset := 1, data := [0x8F, 0x04, 0x22], mask? := some (.perOctet [some 0xF0, none]) }
    let cleared : Option Mask := some (.perOctet [some 0x80, some 0x0C, some 0x00])
    let frame : Bytes := [0xF7, 0xAA, 0x82, 0x04, 0x22]
    frame.length < Word.count ∧ pattern.fits frame 1 = true ∧
      pattern.fitsOnWords frame 1 = pattern.fits frame 1 ∧
      pattern.fits frame 1 = pattern.fits [0x00, 0x82, 0x04, 0x22, 0x99] 0 ∧
      { pattern with mask? := cleared }.fits frame 1 = true := by
  intro pattern cleared frame
  obtain ⟨-, hwords, hwindow, -, hcleared⟩ := fits_exact pattern frame 1
  have hlength : frame.length < Word.count := by decide
  have hfits : pattern.fits frame 1 = true := by decide
  exact ⟨hlength, hfits, hwords hlength, hwindow _ 0 (by decide) (by decide),
    hcleared cleared (by decide) hfits⟩

/-- A sum that is no word fits nowhere. -/
example :
    ({ offset := Word.count - 1, data := [0x3D] } : Pattern).fitsOnWords [0x3D] 1 = false := by
  decide

end PanelBus.Pattern
