import PanelBus.Proofs.Line.Accepted
import PanelBus.Line.Assembler
/-!
# The search for a frame

What a search decides about the front of a buffer, and that it decides so for good: octets that
arrive later change neither a frame that is found nor an octet that is skipped.  A fixed length is
a range of lengths with one member, so both kinds of framing are treated as one.
-/

namespace PanelBus

/-- The least and the greatest length of a frame, where the framing sets them. -/
def Framing.range? : Framing → Option (Nat × Nat)
  | .fixed length => some (length, length)
  | .footer => none
  | .sweep least greatest => some (least, greatest)

namespace RxFormat

/-- Frames of `rx` have from `least` to `greatest` octets. -/
structure Ranges (rx : RxFormat) (least greatest : Nat) : Prop where
  range : rx.framing.range? = some (least, greatest)
  overhead_lt : rx.overhead < least
  least_le : least ≤ greatest
  greatest_le : greatest ≤ rx.capacity

theorem Sound.ranges {rx : RxFormat} (h : rx.Sound) {least greatest : Nat}
    (hrange : rx.framing.range? = some (least, greatest)) : rx.Ranges least greatest := by
  have hroomy := h.roomy
  have hfits := h.fits
  unfold needed at hroomy
  cases hframing : rx.framing with
  | fixed length =>
      rw [hframing] at hrange hroomy hfits
      cases hrange
      exact ⟨by rw [hframing]; rfl, hfits, Nat.le_refl _, hroomy⟩
  | footer =>
      rw [hframing] at hrange
      cases hrange
  | sweep least greatest =>
      rw [hframing] at hrange hroomy hfits
      cases hrange
      exact ⟨by rw [hframing]; rfl, hfits.2.1, hfits.2.2, hroomy⟩

/-! ## Headers -/

theorem headerAgrees_iff (rx : RxFormat) (octets : Bytes) :
    rx.headerAgrees octets = true ↔ rx.header <+: octets ∨ octets <+: rx.header := by
  unfold headerAgrees
  rw [beq_iff_eq]
  rcases Nat.le_total rx.header.length octets.length with hle | hle
  · rw [List.take_of_length_le hle, eq_comm, ← List.prefix_iff_eq_take]
    constructor
    · exact Or.inl
    · rintro (h | h)
      · exact h
      · have hequal := h.eq_of_length (Nat.le_antisymm h.length_le hle)
        exact hequal ▸ List.prefix_rfl
  · rw [List.take_of_length_le hle, ← List.prefix_iff_eq_take]
    constructor
    · exact Or.inr
    · rintro (h | h)
      · have hequal := h.eq_of_length (Nat.le_antisymm h.length_le hle)
        exact hequal ▸ List.prefix_rfl
      · exact h

theorem header_prefix_of_agrees {rx : RxFormat} {octets : Bytes} (h : rx.headerAgrees octets)
    (hlength : rx.header.length ≤ octets.length) : rx.header <+: octets := by
  rcases (rx.headerAgrees_iff octets).mp h with h | h
  · exact h
  · have hequal := h.eq_of_length (Nat.le_antisymm h.length_le hlength)
    exact hequal ▸ List.prefix_rfl

/-- Octets that disagree with the header go on to do so. -/
theorem headerAgrees_of_append {rx : RxFormat} {octets more : Bytes}
    (h : rx.headerAgrees (octets ++ more)) : rx.headerAgrees octets := by
  rw [headerAgrees_iff] at h ⊢
  rcases h with h | h
  · exact List.prefix_or_prefix_of_prefix h (List.prefix_append octets more)
  · exact Or.inr ((List.prefix_append octets more).trans h)

/-! ## Frames at the front -/

theorem le_of_accepts {rx : RxFormat} {octets : Bytes} {n : Nat} (h : rx.accepts octets n) :
    n ≤ octets.length := by
  simp only [accepts, Bool.and_eq_true, decide_eq_true_eq] at h
  exact h.1.1

theorem accepts_append (rx : RxFormat) {octets : Bytes} {n : Nat} (h : n ≤ octets.length)
    (more : Bytes) : rx.accepts (octets ++ more) n = rx.accepts octets n := by
  have hle : n ≤ (octets ++ more).length := by
    rw [List.length_append]
    omega
  unfold accepts
  rw [List.take_append_of_le_length h, decide_eq_true h, decide_eq_true hle]

theorem leastAccepted?_eq_some_iff {rx : RxFormat} {octets : Bytes} {least greatest n : Nat} :
    rx.leastAccepted? octets least greatest = some n ↔
      (least ≤ n ∧ n ≤ greatest) ∧ rx.accepts octets n ∧
        ∀ k, least ≤ k → k < n → rx.accepts octets k = false := by
  unfold leastAccepted?
  rw [List.find?_range'_eq_some, List.mem_range'_1]
  constructor
  · rintro ⟨haccepts, hmem, hleast⟩
    exact ⟨by omega, haccepts, by simpa using hleast⟩
  · rintro ⟨hmem, haccepts, hleast⟩
    exact ⟨haccepts, by omega, by simpa using hleast⟩

theorem leastAccepted?_eq_none_iff {rx : RxFormat} {octets : Bytes} {least greatest : Nat} :
    rx.leastAccepted? octets least greatest = none ↔
      ∀ k, least ≤ k → k ≤ greatest → rx.accepts octets k = false := by
  unfold leastAccepted?
  rw [List.find?_range'_eq_none]
  constructor
  · intro h k hleast hgreatest
    simpa using h k hleast (by omega)
  · intro h k hleast hgreatest
    simpa using h k hleast (by omega)

/-- No frame is longer than the octets there are. -/
theorem leastAccepted?_min (rx : RxFormat) (octets : Bytes) (least greatest : Nat) :
    rx.leastAccepted? octets least (min greatest octets.length) =
      rx.leastAccepted? octets least greatest := by
  cases h : rx.leastAccepted? octets least greatest with
  | none =>
      rw [leastAccepted?_eq_none_iff] at h ⊢
      exact fun k hleast hk => h k hleast (by omega)
  | some n =>
      rw [leastAccepted?_eq_some_iff] at h ⊢
      obtain ⟨hmem, haccepts, hleast⟩ := h
      have hn := le_of_accepts haccepts
      exact ⟨by omega, haccepts, hleast⟩

/-- More octets do not change the least frame that is found. -/
theorem leastAccepted?_append {rx : RxFormat} {octets : Bytes} {least greatest n : Nat}
    (h : rx.leastAccepted? octets least greatest = some n) (more : Bytes) :
    rx.leastAccepted? (octets ++ more) least greatest = some n := by
  rw [leastAccepted?_eq_some_iff] at h ⊢
  obtain ⟨hmem, haccepts, hleast⟩ := h
  have hn := le_of_accepts haccepts
  refine ⟨hmem, by rwa [accepts_append rx hn], ?_⟩
  intro k hk hkn
  rw [accepts_append rx (by omega)]
  exact hleast k hk hkn

theorem leastAccepted?_of_append {rx : RxFormat} {octets more : Bytes} {least greatest n : Nat}
    (h : rx.leastAccepted? (octets ++ more) least greatest = some n) (hn : n ≤ octets.length) :
    rx.leastAccepted? octets least greatest = some n := by
  rw [leastAccepted?_eq_some_iff] at h ⊢
  obtain ⟨hmem, haccepts, hleast⟩ := h
  refine ⟨hmem, by rwa [accepts_append rx hn] at haccepts, ?_⟩
  intro k hk hkn
  rw [← accepts_append rx (show k ≤ octets.length by omega) more]
  exact hleast k hk hkn

theorem leastAccepted?_append_none {rx : RxFormat} {octets : Bytes} {least greatest : Nat}
    (h : rx.leastAccepted? octets least greatest = none) (hlength : greatest ≤ octets.length)
    (more : Bytes) : rx.leastAccepted? (octets ++ more) least greatest = none := by
  rw [leastAccepted?_eq_none_iff] at h ⊢
  intro k hk hkg
  rw [accepts_append rx (by omega)]
  exact h k hk hkg

theorem Ranges.verdict_eq {rx : RxFormat} {least greatest : Nat} (h : rx.Ranges least greatest)
    (octets : Bytes) :
    rx.verdict octets =
      match rx.leastAccepted? octets least greatest with
      | some n => .frame n
      | none => if octets.length < greatest then .incomplete else .invalid := by
  have hle := h.least_le
  have hshort (hlength : octets.length < least) :
      rx.leastAccepted? octets least greatest = none := by
    rw [leastAccepted?_eq_none_iff]
    intro k hk _
    rw [Bool.eq_false_iff]
    intro haccepts
    have hk' := le_of_accepts haccepts
    omega
  have hrange := h.range
  unfold verdict
  cases hframing : rx.framing with
  | fixed _ =>
      rw [hframing] at hrange
      cases hrange
      by_cases hlength : octets.length < least
      · simp [hlength, hshort hlength]
      · by_cases haccepts : rx.accepts octets least
        · simp [hlength, leastAccepted?, haccepts]
        · simp [hlength, leastAccepted?, haccepts]
  | footer =>
      rw [hframing] at hrange
      cases hrange
  | sweep _ _ =>
      rw [hframing] at hrange
      cases hrange
      simp only [leastAccepted?_min]
      by_cases hlength : octets.length < least
      · have hgreatest : octets.length < greatest := by omega
        simp [hlength, hgreatest, hshort hlength]
      · refine (if_neg hlength).trans ?_
        cases rx.leastAccepted? octets least greatest with
        | none => rfl
        | some n => rfl

/-! ## The search -/

theorem search_cons (rx : RxFormat) (b : UInt8) (rest : Bytes) :
    rx.search (b :: rest) =
      if !rx.headerAgrees (b :: rest) then (rx.search rest).afterDrop
      else if (b :: rest).length < rx.header.length then { rest := b :: rest }
      else
        match rx.verdict (b :: rest) with
        | .frame n => { frame? := some ((b :: rest).take n), rest := (b :: rest).drop n }
        | .incomplete => { rest := b :: rest }
        | .invalid => (rx.search rest).afterFailure := rfl

/-- What a search does at the front of a buffer: it skips an octet that disagrees with the header,
finds a frame, waits for more octets, or gives up a full window. -/
theorem Ranges.search_cases {rx : RxFormat} {least greatest : Nat} (h : rx.Ranges least greatest)
    (b : UInt8) (rest : Bytes) :
    (¬rx.headerAgrees (b :: rest) ∧ rx.search (b :: rest) = (rx.search rest).afterDrop) ∨
    (∃ n, rx.header <+: b :: rest ∧ rx.leastAccepted? (b :: rest) least greatest = some n ∧
      rx.search (b :: rest) =
        { frame? := some ((b :: rest).take n), rest := (b :: rest).drop n }) ∨
    (rx.headerAgrees (b :: rest) ∧ rx.leastAccepted? (b :: rest) least greatest = none ∧
      (b :: rest).length < greatest ∧ rx.search (b :: rest) = { rest := b :: rest }) ∨
    (rx.header <+: b :: rest ∧ rx.leastAccepted? (b :: rest) least greatest = none ∧
      greatest ≤ (b :: rest).length ∧
      rx.search (b :: rest) = (rx.search rest).afterFailure) := by
  have hoverhead := h.overhead_lt
  have hle := h.least_le
  unfold overhead at hoverhead
  rw [search_cons, h.verdict_eq]
  by_cases hagrees : rx.headerAgrees (b :: rest)
  · by_cases hshort : (b :: rest).length < rx.header.length
    · have hnone : rx.leastAccepted? (b :: rest) least greatest = none := by
        rw [leastAccepted?_eq_none_iff]
        intro k hk _
        rw [Bool.eq_false_iff]
        intro haccepts
        have hk' := le_of_accepts haccepts
        omega
      refine .inr (.inr (.inl ⟨hagrees, hnone, by omega, ?_⟩))
      rw [if_neg (by simpa using hagrees), if_pos hshort]
    · have hheader := header_prefix_of_agrees hagrees (by omega)
      rw [if_neg (by simpa using hagrees), if_neg hshort]
      cases hfound : rx.leastAccepted? (b :: rest) least greatest with
      | some n => exact .inr (.inl ⟨n, hheader, rfl, rfl⟩)
      | none =>
          by_cases hfull : (b :: rest).length < greatest
          · exact .inr (.inr (.inl ⟨hagrees, rfl, hfull, by simp only [if_pos hfull]⟩))
          · exact .inr (.inr (.inr ⟨hheader, rfl, by omega, by simp only [if_neg hfull]⟩))
  · exact .inl ⟨hagrees, by simp [hagrees]⟩

/-- What is left after a search is too short for a greatest frame. -/
theorem Ranges.length_rest_lt {rx : RxFormat} {least greatest : Nat}
    (h : rx.Ranges least greatest) {octets : Bytes} (hlength : octets.length ≤ greatest) :
    (rx.search octets).rest.length < greatest := by
  have hoverhead := h.overhead_lt
  have hle := h.least_le
  induction octets with
  | nil =>
      change 0 < greatest
      omega
  | cons b rest ih =>
      have hrest : (rx.search rest).rest.length < greatest := by
        apply ih
        rw [List.length_cons] at hlength
        omega
      rcases h.search_cases b rest with ⟨_, hsearch⟩ | ⟨n, _, hfound, hsearch⟩ |
        ⟨_, _, hshort, hsearch⟩ | ⟨_, _, _, hsearch⟩
      · rw [hsearch]
        exact hrest
      · have hn := (leastAccepted?_eq_some_iff.mp hfound).1
        rw [hsearch]
        change ((b :: rest).drop n).length < greatest
        rw [List.length_drop]
        omega
      · rw [hsearch]
        exact hshort
      · rw [hsearch]
        exact hrest

/-- A search loses no octet: it skips some, takes the frame and leaves the rest. -/
theorem search_split (rx : RxFormat) (octets : Bytes) :
    ∃ skipped, octets = skipped ++ ((rx.search octets).frame?.getD [] ++ (rx.search octets).rest) ∧
      skipped.length = (rx.search octets).drops := by
  induction octets with
  | nil => exact ⟨[], rfl, rfl⟩
  | cons b rest ih =>
      obtain ⟨skipped, hsplit, hdrops⟩ := ih
      have hskip : b :: rest = (b :: skipped) ++
          ((rx.search rest).frame?.getD [] ++ (rx.search rest).rest) := by
        rw [List.cons_append, ← hsplit]
      have hcount : (b :: skipped).length = (rx.search rest).drops + 1 := by
        rw [List.length_cons, hdrops]
      rw [search_cons]
      split
      · exact ⟨b :: skipped, hskip, hcount⟩
      · split
        · exact ⟨[], rfl, rfl⟩
        · split
          · next n _ => exact ⟨[], (List.take_append_drop n (b :: rest)).symm, rfl⟩
          · exact ⟨[], rfl, rfl⟩
          · exact ⟨b :: skipped, hskip, hcount⟩

theorem length_of_found {rx : RxFormat} {octets frame : Bytes}
    (hfound : (rx.search octets).frame? = some frame) :
    octets.length =
      (rx.search octets).drops + frame.length + (rx.search octets).rest.length := by
  obtain ⟨skipped, hsplit, hdrops⟩ := rx.search_split octets
  have hlength := congrArg List.length hsplit
  rw [hfound, Option.getD_some, List.length_append, List.length_append, hdrops] at hlength
  omega

theorem Ranges.least_le_of_found {rx : RxFormat} {least greatest : Nat}
    (h : rx.Ranges least greatest) {octets frame : Bytes}
    (hfound : (rx.search octets).frame? = some frame) : least ≤ frame.length := by
  induction octets with
  | nil => cases hfound
  | cons b rest ih =>
      rcases h.search_cases b rest with ⟨_, hsearch⟩ | ⟨n, _, hleast, hsearch⟩ |
        ⟨_, _, _, hsearch⟩ | ⟨_, _, _, hsearch⟩
      · rw [hsearch] at hfound
        exact ih hfound
      · obtain ⟨hmem, haccepts, _⟩ := leastAccepted?_eq_some_iff.mp hleast
        have hn := le_of_accepts haccepts
        rw [hsearch] at hfound
        cases hfound
        rw [List.length_take]
        omega
      · rw [hsearch] at hfound
        cases hfound
      · rw [hsearch] at hfound
        exact ih hfound

/-! ## Frames that end with a footer -/

/-- The octets do not end with the footer of a frame. -/
def Unended (rx : RxFormat) (octets : Bytes) : Prop :=
  octets.length ≤ rx.overhead ∨ ¬rx.footer <:+ octets

theorem Unended.of_suffix {rx : RxFormat} {octets shorter : Bytes} (h : rx.Unended octets)
    (hshorter : shorter <:+ octets) : rx.Unended shorter := by
  rcases h with h | h
  · exact .inl (Nat.le_trans hshorter.length_le h)
  · exact .inr fun hfooter => h (hfooter.trans hshorter)

theorem Unended.verdict_eq {rx : RxFormat} (hfooter : rx.framing = .footer) {octets : Bytes}
    (h : rx.Unended octets) : rx.verdict octets = .incomplete := by
  unfold verdict
  rw [hfooter]
  rcases h with h | h
  · simp [h]
  · rw [← List.isSuffixOf_iff_suffix, Bool.not_eq_true] at h
    simp [h]

theorem verdict_of_not_unended {rx : RxFormat} (hfooter : rx.framing = .footer) {octets : Bytes}
    (h : ¬rx.Unended octets) :
    rx.verdict octets =
      if rx.accepts octets octets.length then .frame octets.length else .invalid := by
  obtain ⟨hlong, hends⟩ := not_or.mp h
  rw [Decidable.not_not, ← List.isSuffixOf_iff_suffix] at hends
  unfold verdict
  rw [hfooter]
  simp [hlong, hends]

theorem Unended.search_eq_none {rx : RxFormat} (hfooter : rx.framing = .footer) {octets : Bytes}
    (h : rx.Unended octets) : (rx.search octets).frame? = none := by
  induction octets with
  | nil => rfl
  | cons b rest ih =>
      rw [search_cons, h.verdict_eq hfooter]
      split
      · exact ih (h.of_suffix (List.suffix_cons b rest))
      · split
        · rfl
        · rfl

/-- Nothing is left behind a frame that ends with the last octet there is. -/
theorem unended_rest {rx : RxFormat} (hfooter : rx.framing = .footer) (octets : Bytes) :
    rx.Unended (rx.search octets).rest := by
  induction octets with
  | nil => exact .inl (Nat.zero_le _)
  | cons b rest ih =>
      rw [search_cons]
      split
      · exact ih
      · split
        · next hshort =>
          unfold Unended overhead
          change (b :: rest).length ≤ _ ∨ _
          omega
        · by_cases hended : rx.Unended (b :: rest)
          · rw [hended.verdict_eq hfooter]
            exact hended
          · rw [verdict_of_not_unended hfooter hended]
            by_cases haccepts : rx.accepts (b :: rest) (b :: rest).length
            · rw [if_pos haccepts]
              refine .inl ?_
              simp
            · rw [if_neg haccepts]
              exact ih

end RxFormat

end PanelBus
