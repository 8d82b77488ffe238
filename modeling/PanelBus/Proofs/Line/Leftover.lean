import PanelBus.Proofs.Line.Scan
/-!
# Frames left behind

An assembler looks for a frame once with each octet, so a whole frame can be left in its buffer when
several are complete at the same time.  With a footer this never happens: a frame takes the buffer
with it.  Where the framing sets the lengths it takes a full window behind a false header, and the
frames left behind then wait as in a queue that is served once with each octet.
-/

namespace PanelBus

namespace RxFormat

section

variable {rx : RxFormat} {least greatest : Nat} (h : rx.Ranges least greatest)
include h

theorem Ranges.search_eq_none_of_short {octets : Bytes} (hshort : octets.length < least) :
    (rx.search octets).frame? = none := by
  cases hfound : (rx.search octets).frame? with
  | none => rfl
  | some frame =>
      have hframe := h.least_le_of_found hfound
      have hlength := length_of_found hfound
      omega

theorem Ranges.search_ne_none {b : UInt8} {rest : Bytes} {n : Nat}
    (hheader : rx.header <+: b :: rest)
    (hleast : rx.leastAccepted? (b :: rest) least greatest = some n) :
    (rx.search (b :: rest)).frame? ≠ none := by
  rcases h.search_cases b rest with ⟨hagrees, _⟩ | ⟨_, _, _, hsearch⟩ | ⟨_, hnone, _⟩ |
    ⟨_, hnone, _⟩
  · exact absurd ((rx.headerAgrees_iff _).mpr (.inl hheader)) hagrees
  · rw [hsearch]
    exact Option.some_ne_none _
  · rw [hleast] at hnone
    cases hnone
  · rw [hleast] at hnone
    cases hnone

/-- A frame that starts at the front and needs the last octet takes all octets. -/
theorem Ranges.rest_eq_nil {octets frame : Bytes} {b : UInt8}
    (hquiet : (rx.search octets).frame? = none)
    (hfound : (rx.search (octets ++ [b])).frame? = some frame)
    (hfront : (rx.search (octets ++ [b])).drops = 0) : (rx.search (octets ++ [b])).rest = [] := by
  have hoverhead := h.overhead_lt
  unfold overhead at hoverhead
  cases octets with
  | nil =>
      have hframe := h.least_le_of_found hfound
      have hlength := length_of_found hfound
      rw [List.nil_append, List.length_singleton] at hlength
      rw [List.nil_append]
      exact List.eq_nil_of_length_eq_zero (by omega)
  | cons c tail =>
      rw [List.cons_append] at hfound hfront ⊢
      rcases h.search_cases c (tail ++ [b]) with ⟨_, hsearch⟩ | ⟨n, hheader, hleast, hsearch⟩ |
        ⟨_, _, _, hsearch⟩ | ⟨_, _, _, hsearch⟩
      · rw [hsearch] at hfront
        cases hfront
      · rw [hsearch]
        by_cases hn : n ≤ (c :: tail).length
        · -- The frame would have been found without `b`.
          have hmem := (leastAccepted?_eq_some_iff.mp hleast).1
          rw [← List.cons_append] at hheader hleast
          have hstarts : rx.header <+: c :: tail :=
            List.prefix_of_prefix_length_le hheader (List.prefix_append (c :: tail) [b]) (by omega)
          exact absurd hquiet (h.search_ne_none hstarts (leastAccepted?_of_append hleast hn))
        · refine List.drop_eq_nil_of_le ?_
          rw [List.length_cons] at hn ⊢
          rw [List.length_append, List.length_singleton]
          omega
      · rw [hsearch] at hfound
        cases hfound
      · rw [hsearch] at hfront
        cases hfront

/-- What is left behind a frame is too short for another one, where no frame is longer than two of
the shortest. -/
theorem Ranges.quiet_rest (hnarrow : greatest ≤ 2 * least) {octets : Bytes} {b : UInt8}
    (hlength : octets.length < greatest) (hquiet : (rx.search octets).frame? = none) :
    (rx.search (rx.search (octets ++ [b])).rest).frame? = none := by
  cases hfound : (rx.search (octets ++ [b])).frame? with
  | none =>
      rw [h.search_eq_none_iff, h.scan_rest hfound]
  | some frame =>
      by_cases hfront : (rx.search (octets ++ [b])).drops = 0
      · rw [h.rest_eq_nil hquiet hfound hfront]
        rfl
      · have hframe := h.least_le_of_found hfound
        have hsum := length_of_found hfound
        rw [List.length_append, List.length_singleton] at hsum
        exact h.search_eq_none_of_short (by omega)

end

/-- In no last part of the stream are more frames completed than octets received. -/
def Paced (rx : RxFormat) (least greatest : Nat) (stream : Bytes) : Prop :=
  ∀ early, early <+: stream →
    (rx.scan least greatest stream).frames.length ≤
      (rx.scan least greatest early).frames.length + (stream.length - early.length)

end RxFormat

namespace Assembler

open RxFormat

variable {rx : RxFormat} {least greatest : Nat}

theorem complete_eq_none_iff {assembler : Assembler} (huses : assembler.Uses rx) :
    assembler.complete.1 = none ↔ (rx.search assembler.pending).frame? = none := by
  rw [← huses.rx_eq]
  rfl

/-! ## Frames that end with a footer -/

theorem unended_feedAll (hfooter : rx.framing = .footer) (bytes : Bytes) :
    rx.Unended ((ofFormat rx).feedAll bytes).2.pending := by
  have hfeed : ∀ assembler : Assembler, assembler.Uses rx → rx.Unended assembler.pending →
      ∀ b, rx.Unended (assembler.feed b).2.pending := by
    intro assembler huses _ b
    have hrest := unended_rest hfooter (assembler.pending ++ [b])
    rw [feed_eq, huses.rx_eq]
    exact hrest.of_suffix (List.drop_suffix _ _)
  exact (uses_ofFormat rx).feedAll_preserves _ hfeed (.inl (Nat.zero_le _)) bytes

/-! ## Frames of set lengths -/

theorem quiet_feedAll (h : rx.Ranges least greatest) (hnarrow : greatest ≤ 2 * least)
    (bytes : Bytes) : (rx.search ((ofFormat rx).feedAll bytes).2.pending).frame? = none := by
  have hfeed : ∀ assembler : Assembler, assembler.Uses rx →
      assembler.pending.length < greatest ∧ (rx.search assembler.pending).frame? = none →
      ∀ b, (assembler.feed b).2.pending.length < greatest ∧
        (rx.search (assembler.feed b).2.pending).frame? = none := by
    rintro assembler huses ⟨hroom, hquiet⟩ b
    obtain ⟨hpending, hroom'⟩ := pending_feed huses h hroom b
    refine ⟨hroom', ?_⟩
    rw [hpending]
    exact h.quiet_rest hnarrow hroom hquiet
  have hkept := (uses_ofFormat rx).feedAll_preserves _ hfeed ⟨pending_ofFormat_lt h, rfl⟩ bytes
  exact hkept.2

theorem length_feedAll_le (assembler : Assembler) (bytes : Bytes) :
    (assembler.feedAll bytes).1.length ≤ bytes.length := by
  induction bytes generalizing assembler with
  | nil => exact Nat.le_refl _
  | cons b rest ih =>
      have hone : (assembler.feed b).1.toList.length ≤ 1 := by
        cases (assembler.feed b).1 with
        | none => exact Nat.zero_le _
        | some frame => exact Nat.le_refl _
      have hrest := ih (assembler.feed b).2
      rw [feedAll_cons, List.length_append, List.length_cons]
      omega

theorem length_frames_scan (h : rx.Ranges least greatest) (stream : Bytes) :
    (rx.scan least greatest stream).frames.length =
      ((ofFormat rx).feedAll stream).1.length +
        (rx.scan least greatest ((ofFormat rx).feedAll stream).2.pending).frames.length := by
  rw [scan_ofFormat h stream]
  simp [counted]

/-- The frames given are those of an early part of the stream and one for each octet behind it:
when the last octet gave no frame nothing is left behind, and when it gave one the part stays. -/
theorem exists_early (h : rx.Ranges least greatest) (stream : Bytes) :
    ∃ early, early <+: stream ∧
      ((ofFormat rx).feedAll stream).1.length =
        (rx.scan least greatest early).frames.length + (stream.length - early.length) := by
  induction stream using List.reverseRecOn with
  | nil =>
      refine ⟨[], List.prefix_rfl, ?_⟩
      rw [scan]
      rfl
  | append_singleton octets b ih =>
      have hconcat := (ofFormat rx).feedAll_concat octets b
      cases hfound : (((ofFormat rx).feedAll octets).2.feed b).1 with
      | none =>
          have huses := (uses_ofFormat rx).feedAll octets
          have hroom := pending_feedAll_lt (uses_ofFormat rx) h (pending_ofFormat_lt h) octets
          have hwait : rx.scan least greatest
              (((ofFormat rx).feedAll octets).2.feed b).2.pending = {} := by
            rw [(pending_feed huses h hroom b).1]
            rw [feed_eq, huses.rx_eq] at hfound
            exact h.scan_rest hfound
          refine ⟨octets ++ [b], List.prefix_rfl, ?_⟩
          rw [length_frames_scan h (octets ++ [b]), hconcat, hwait]
          simp
      | some frame =>
          obtain ⟨early, hearly, hlength⟩ := ih
          refine ⟨early, hearly.trans (List.prefix_append octets [b]), ?_⟩
          have hle := hearly.length_le
          rw [hconcat, hfound]
          simp only [Option.toList_some, List.length_append, List.length_singleton]
          omega

theorem complete_feedAll_eq_none_iff (h : rx.Ranges least greatest) (stream : Bytes) :
    ((ofFormat rx).feedAll stream).2.complete.1 = none ↔ rx.Paced least greatest stream := by
  rw [complete_eq_none_iff ((uses_ofFormat rx).feedAll stream), h.search_eq_none_iff]
  have hscan := length_frames_scan h stream
  constructor
  · intro hnone early hearly
    obtain ⟨late, rfl⟩ := hearly
    have hearly := length_frames_scan h early
    have hlate := length_feedAll_le ((ofFormat rx).feedAll early).2 late
    rw [hnone, feedAll_append, List.length_append] at hscan
    rw [List.length_nil] at hscan
    rw [List.length_append]
    omega
  · intro hpaced
    obtain ⟨early, hearly, hlength⟩ := exists_early h stream
    have hle := hpaced early hearly
    exact List.eq_nil_of_length_eq_zero (by omega)

/-! ## All runs -/

/-- **Frames are left behind only by a sweep, and only when they come faster than octets.**  After
any run a search without new octets finds no frame, unless the framing is a sweep and some last
part of the last burst completes more frames than it has octets.  With lengths of which the
greatest is at most twice the least, this cannot be. -/
theorem complete_run_eq_none_iff {line : Line} (hline : line.Accepted) (steps : List Step) :
    let left? := ((ofFormat line.rx).run steps).2.complete.1
    let burst := octetsOf (lastBurst line.rx.timeout? steps)
    (left? = none ↔
      ∀ least greatest, line.rx.framing = .sweep least greatest →
        line.rx.Paced least greatest burst) ∧
    ∀ least greatest, line.rx.framing = .sweep least greatest → greatest ≤ 2 * least →
      left? = none := by
  intro left? burst
  have huses := uses_ofFormat line.rx
  have hleft : left? = none ↔
      (line.rx.search ((ofFormat line.rx).feedAll burst).2.pending).frame? = none := by
    simp only [left?]
    rw [complete_eq_none_iff (huses.run steps), pending_run]
    rfl
  have hnarrow {least greatest : Nat} (h : line.rx.Ranges least greatest)
      (hle : greatest ≤ 2 * least) : left? = none :=
    hleft.mpr (quiet_feedAll h hle burst)
  cases hframing : line.rx.framing with
  | fixed length =>
      have h : line.rx.Ranges length length := hline.sound.ranges (by rw [hframing]; rfl)
      have hnone := hnarrow h (by omega)
      exact ⟨iff_of_true hnone nofun, nofun⟩
  | footer =>
      have hunended := unended_feedAll hframing burst
      have hnone := hleft.mpr (hunended.search_eq_none hframing)
      exact ⟨iff_of_true hnone nofun, nofun⟩
  | sweep least greatest =>
      have h : line.rx.Ranges least greatest := hline.sound.ranges (by rw [hframing]; rfl)
      constructor
      · rw [hleft, ← complete_eq_none_iff (huses.feedAll burst), complete_feedAll_eq_none_iff h]
        constructor
        · rintro hpaced least' greatest' ⟨⟩
          exact hpaced
        · intro hpaced
          exact hpaced least greatest rfl
      · rintro least' greatest' ⟨⟩ hle
        exact hnarrow h hle

/-- The last octet completes the frame behind the false header and the next one. -/
theorem not_paced_sample :
    Line.sample.Accepted ∧
      ¬Line.sample.rx.Paced 3 7 [0xF7, 0xF7, 0x01, 0xF8, 0xF7, 0x02, 0xF9] := by
  let steps : List Step := [.chunk ⟨[0xF7, 0xF7, 0x01, 0xF8, 0xF7, 0x02, 0xF9], 0⟩]
  refine ⟨Line.accepted_sample, fun hpaced => ?_⟩
  have hnone := (complete_run_eq_none_iff Line.accepted_sample steps).1.mpr
    (by rintro least greatest ⟨⟩; exact hpaced)
  exact absurd hnone (by decide)

/-- The second frame is whole, but it waits, and silence throws it away. -/
theorem complete_run_ne_none :
    let octets : Bytes := [0xF7, 0xF7, 0x01, 0xF8, 0xF7, 0x02, 0xF9]
    let first := (ofFormat Line.sample.rx).run [.chunk ⟨octets, 0⟩]
    let later := (ofFormat Line.sample.rx).run [.chunk ⟨octets, 0⟩, .chunk ⟨[0xF7], 100⟩]
    Line.sample.Accepted ∧ first.2.complete.1 = some [0xF7, 0x02, 0xF9] ∧
      later.1 = [[0xF7, 0x01, 0xF8]] ∧ later.2.pending = [0xF7] ∧ later.2.stats.timeouts = 1 := by
  refine ⟨Line.accepted_sample, ?_, ?_, ?_, ?_⟩
  · decide
  · decide
  · decide
  · decide

end Assembler

end PanelBus
