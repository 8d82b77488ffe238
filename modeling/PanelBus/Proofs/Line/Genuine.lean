import PanelBus.Proofs.Line.Bursts
import PanelBus.Proofs.Line.Search
/-!
# Genuine frames

The parts of a frame are looked at in different places: its header by the search, its footer and its
checksum when a candidate is accepted, and that it has room for data by the checks of the settings,
before any octet is received.  Whatever comes over the line, what is given out as a frame has all of
them right.
-/

namespace PanelBus

/-- The framing allows a frame of that length.  A sweep does not where a shorter part of the frame
is one already. -/
def Framing.Admits (rx : RxFormat) (frame : Bytes) : Framing → Prop
  | .fixed length => frame.length = length
  | .footer => frame.length ≤ rx.capacity + 1
  | .sweep least greatest =>
    (least ≤ frame.length ∧ frame.length ≤ greatest) ∧
      ∀ n < frame.length, least ≤ n → ¬(rx.footer <:+ frame.take n ∧
        rx.checksum.verifyFrame (frame.take n) rx.header.length rx.footer.length)

/-- A frame of the format that holds data. -/
structure RxFormat.Genuine (rx : RxFormat) (frame : Bytes) : Prop where
  header : rx.header <+: frame
  footer : rx.footer <:+ frame
  checked : rx.checksum.verifyFrame frame rx.header.length rx.footer.length
  holds_data : rx.overhead < frame.length
  admitted : rx.framing.Admits rx frame

namespace RxFormat

variable {rx : RxFormat} {octets : Bytes} {n : Nat}

theorem accepts_iff : rx.accepts octets n = true ↔
    n ≤ octets.length ∧ rx.footer <:+ octets.take n ∧
      rx.checksum.verifyFrame (octets.take n) rx.header.length rx.footer.length := by
  unfold accepts
  rw [Bool.and_eq_true, Bool.and_eq_true, decide_eq_true_eq, List.isSuffixOf_iff_suffix, and_assoc]

theorem genuine_take (hheader : rx.header <+: octets) (haccepts : rx.accepts octets n)
    (hdata : rx.overhead < n) (hadmits : rx.framing.Admits rx (octets.take n)) :
    rx.Genuine (octets.take n) := by
  obtain ⟨hn, hfooter, hchecked⟩ := accepts_iff.mp haccepts
  have hlength : (octets.take n).length = n := List.length_take_of_le hn
  have hroom : rx.header.length ≤ n := by
    unfold overhead at hdata
    omega
  exact
    { header := List.prefix_take_iff.mpr ⟨hheader, hroom⟩
      footer := hfooter
      checked := hchecked
      holds_data := by rwa [hlength]
      admitted := hadmits }

/-- The least candidate of a sweep has no shorter one in it. -/
theorem not_accepted_earlier {least greatest : Nat}
    (hfound : rx.leastAccepted? octets least greatest = some n) :
    ∀ k < (octets.take n).length, least ≤ k → ¬(rx.footer <:+ (octets.take n).take k ∧
      rx.checksum.verifyFrame ((octets.take n).take k) rx.header.length rx.footer.length) := by
  obtain ⟨_, haccepts, hearlier⟩ := leastAccepted?_eq_some_iff.mp hfound
  have hn := le_of_accepts haccepts
  intro k hk hleast hshorter
  rw [List.length_take_of_le hn] at hk
  rw [List.take_take, Nat.min_eq_left (by omega)] at hshorter
  have hfalse := hearlier k hleast hk
  rw [accepts_iff.mpr ⟨by omega, hshorter⟩] at hfalse
  cases hfalse

theorem Sound.genuine_of_verdict (h : rx.Sound) (hheader : rx.header <+: octets)
    (hroom : octets.length ≤ rx.capacity + 1) (hverdict : rx.verdict octets = .frame n) :
    rx.Genuine (octets.take n) := by
  have hfits := h.fits
  unfold verdict at hverdict
  cases hframing : rx.framing with
  | fixed length =>
      simp only [hframing] at hverdict hfits
      split at hverdict
      · cases hverdict
      · split at hverdict
        · next haccepts =>
          cases hverdict
          refine genuine_take hheader haccepts hfits ?_
          rw [hframing]
          exact List.length_take_of_le (le_of_accepts haccepts)
        · cases hverdict
  | footer =>
      simp only [hframing] at hverdict
      split at hverdict
      · cases hverdict
      · next hended =>
        simp only [Bool.or_eq_true, decide_eq_true_eq, not_or] at hended
        split at hverdict
        · next haccepts =>
          cases hverdict
          refine genuine_take hheader haccepts (Nat.lt_of_not_le hended.1) ?_
          rw [hframing, List.take_length]
          exact hroom
        · cases hverdict
  | sweep least greatest =>
      simp only [hframing] at hverdict hfits
      split at hverdict
      · cases hverdict
      · split at hverdict
        · next m hfound =>
          cases hverdict
          rw [leastAccepted?_min] at hfound
          obtain ⟨hrange, haccepts, _⟩ := leastAccepted?_eq_some_iff.mp hfound
          have hlength : (octets.take n).length = n :=
            List.length_take_of_le (le_of_accepts haccepts)
          refine genuine_take hheader haccepts (Nat.lt_of_lt_of_le hfits.2.1 hrange.1) ?_
          rw [hframing]
          exact ⟨by rwa [hlength], not_accepted_earlier hfound⟩
        · split at hverdict
          · cases hverdict
          · cases hverdict

theorem Sound.genuine_of_found (h : rx.Sound) {frame : Bytes}
    (hroom : octets.length ≤ rx.capacity + 1) (hfound : (rx.search octets).frame? = some frame) :
    rx.Genuine frame := by
  induction octets with
  | nil => cases hfound
  | cons b rest ih =>
      have hrest : rest.length ≤ rx.capacity + 1 := by
        rw [List.length_cons] at hroom
        omega
      rw [search_cons] at hfound
      split at hfound
      · exact ih hrest hfound
      · next hagrees =>
        split at hfound
        · cases hfound
        · next hlong =>
          have hheader : rx.header <+: b :: rest :=
            header_prefix_of_agrees (by simpa using hagrees) (Nat.le_of_not_lt hlong)
          split at hfound
          · next hverdict =>
            cases hfound
            exact h.genuine_of_verdict hheader hroom hverdict
          · cases hfound
          · exact ih hrest hfound

theorem Sound.capacity_pos (h : rx.Sound) : 0 < rx.capacity := by
  have hroomy := h.roomy
  have hfits := h.fits
  unfold needed at hroomy
  cases hframing : rx.framing with
  | fixed length =>
      rw [hframing] at hroomy hfits
      exact Nat.lt_of_lt_of_le (Nat.zero_lt_of_lt hfits) hroomy
  | footer =>
      rw [hframing] at hroomy
      exact Nat.lt_of_lt_of_le (Nat.succ_pos rx.overhead) hroomy
  | sweep least greatest =>
      rw [hframing] at hroomy hfits
      have hleast : 0 < least := Nat.zero_lt_of_lt hfits.2.1
      exact Nat.lt_of_lt_of_le hleast (Nat.le_trans hfits.2.2 hroomy)

end RxFormat

namespace Assembler

variable {assembler : Assembler} {rx : RxFormat}

theorem length_pending_feed_le (huses : assembler.Uses rx) (h : rx.Sound) (b : UInt8) :
    (assembler.feed b).2.pending.length ≤ rx.capacity := by
  have hcapacity := huses.capacity_eq
  have hpos := h.capacity_pos
  rw [feed_eq]
  change (List.drop _ _).length ≤ rx.capacity
  rw [List.length_drop]
  omega

theorem genuine_of_mem_feedAll (huses : assembler.Uses rx) (h : rx.Sound)
    (hroom : assembler.pending.length ≤ rx.capacity) {bytes frame : Bytes}
    (hframe : frame ∈ (assembler.feedAll bytes).1) : rx.Genuine frame := by
  induction bytes generalizing assembler with
  | nil => cases hframe
  | cons b rest ih =>
      rw [feedAll_cons] at hframe
      rcases List.mem_append.mp hframe with hframe | hframe
      · have hfound : (rx.search (assembler.pending ++ [b])).frame? = some frame := by
          rw [feed_eq, huses.rx_eq] at hframe
          exact Option.mem_toList.mp hframe
        -- The search comes before the buffer is cut back, so it may see one octet too many.
        refine h.genuine_of_found ?_ hfound
        rw [List.length_append, List.length_singleton]
        omega
      · exact ih (huses.feed b) (length_pending_feed_le huses h b) hframe

/-- **Only genuine frames are given out.**  Whatever octets come, at whatever times and with
whatever resets between them: each frame starts with the header, ends with the footer, carries the
right checksum, has data besides these and has a length that the framing allows. -/
theorem genuine_of_mem_run {line : Line} (hline : line.Accepted) (steps : List Step)
    {frame : Bytes} (hframe : frame ∈ ((ofFormat line.rx).run steps).1) :
    line.rx.Genuine frame := by
  rw [(sums_ofFormat line.rx steps).frames] at hframe
  obtain ⟨burst, _, hframe⟩ := List.mem_flatMap.mp hframe
  exact genuine_of_mem_feedAll (uses_ofFormat line.rx) hline.sound (Nat.zero_le _) hframe

/-- Noise, a header with a wrong checksum behind it, and a frame that silence has cut off come
before the frame. -/
theorem genuine_of_mem_run_sample :
    let steps : List Step :=
      [.chunk ⟨[0x00, 0xF7, 0x02, 0x03, 0xF7], 0⟩, .chunk ⟨[0x01, 0xF8], 30⟩, .reset,
        .chunk ⟨[0xF7, 0x02], 40⟩, .chunk ⟨[0xF9, 0xF7, 0x05, 0xFC], 200⟩]
    Line.sample.Accepted ∧ [0xF7, 0x05, 0xFC] ∈ ((ofFormat Line.sample.rx).run steps).1 ∧
      Line.sample.rx.Genuine [0xF7, 0x05, 0xFC] := by
  intro steps
  have hframe : [0xF7, 0x05, 0xFC] ∈ ((ofFormat Line.sample.rx).run steps).1 := by decide
  exact ⟨Line.accepted_sample, hframe, genuine_of_mem_run Line.accepted_sample steps hframe⟩

end Assembler

end PanelBus
