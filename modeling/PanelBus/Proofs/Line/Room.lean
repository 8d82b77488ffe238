import PanelBus.Proofs.Line.Genuine
import PanelBus.Proofs.Line.Scan
/-!
# Room for every frame

The capacity is checked once, against the settings.  From then on nothing is pushed out where the
framing sets a greatest length, and every frame that is accepted can be taken out of the buffer.
-/

namespace PanelBus

/-- Nothing was pushed out, and less than a greatest frame is pending. -/
def Assembler.Spare (assembler : Assembler) (greatest : Nat) : Prop :=
  assembler.stats.overflowDrops = 0 ∧ assembler.pending.length < greatest

/-- How much an assembler keeps when `capacity` octets may stay. -/
def Framing.Keeps (capacity : Nat) (assembler : Assembler) : Framing → Prop
  | .fixed length => assembler.Spare length
  | .footer => assembler.pending.length ≤ capacity
  | .sweep _ greatest => assembler.Spare greatest

/-- A line with room for a greatest frame and no octet more. -/
def Line.tight : Line := { sample with rx := { sample.rx with capacity := 7 } }

theorem Line.accepted_tight : tight.Accepted := by
  have hcapacity : sample.withCapacity 7 = .ok tight := rfl
  exact .withCapacity accepted_sample hcapacity

/-! ## Taking frames out of the buffer -/

namespace FrameBuffer

theorem discard_one {buffer : FrameBuffer} {b : UInt8} {rest : Bytes}
    (h : buffer.octets = b :: rest) : buffer.discard 1 = { buffer with octets := rest } := by
  unfold discard
  rw [h]
  rfl

theorem extract?_of_le {buffer : FrameBuffer} {n : Nat} (h : n ≤ buffer.octets.length) :
    buffer.extract? n = some (buffer.octets.take n, buffer.discard n) :=
  if_pos h

end FrameBuffer

namespace RxFormat

/-- The search as work on the buffer: octets are discarded one by one, and the frame that is
accepted is taken out.  There is no result if it cannot be taken out. -/
def takeFrame? (rx : RxFormat) (buffer : FrameBuffer) : Option (Option Bytes × FrameBuffer) :=
  match _h : buffer.octets with
  | [] => some (none, buffer)
  | b :: rest =>
    if !rx.headerAgrees (b :: rest) then takeFrame? rx (buffer.discard 1)
    else if (b :: rest).length < rx.header.length then some (none, buffer)
    else
      match rx.verdict (b :: rest) with
      | .frame n => (buffer.extract? n).map fun (frame, rest) => (some frame, rest)
      | .incomplete => some (none, buffer)
      | .invalid => takeFrame? rx (buffer.discard 1)
termination_by buffer.octets.length
decreasing_by
  all_goals
    rw [FrameBuffer.discard_one ‹buffer.octets = b :: rest›, ‹buffer.octets = b :: rest›]
    exact Nat.lt_succ_self _

variable {rx : RxFormat}

theorem accepts_of_verdict {octets : Bytes} {n : Nat} (h : rx.verdict octets = .frame n) :
    rx.accepts octets n = true := by
  unfold verdict at h
  cases hframing : rx.framing with
  | fixed length =>
      simp only [hframing] at h
      split at h
      · cases h
      · split at h
        · next haccepts =>
          cases h
          exact haccepts
        · cases h
  | footer =>
      simp only [hframing] at h
      split at h
      · cases h
      · split at h
        · next haccepts =>
          cases h
          exact haccepts
        · cases h
  | sweep least greatest =>
      simp only [hframing] at h
      split at h
      · cases h
      · split at h
        · next m hfound =>
          cases h
          exact (leastAccepted?_eq_some_iff.mp hfound).2.1
        · split at h
          · cases h
          · cases h

/-- A frame that is accepted can be taken out, so the buffer comes to what the search finds. -/
theorem takeFrame?_eq (rx : RxFormat) (buffer : FrameBuffer) :
    rx.takeFrame? buffer =
      some ((rx.search buffer.octets).frame?,
        { buffer with octets := (rx.search buffer.octets).rest }) := by
  obtain ⟨capacity, octets⟩ := buffer
  induction octets with
  | nil =>
      rw [takeFrame?]
      rfl
  | cons b rest ih =>
      have hdiscard : FrameBuffer.discard ⟨capacity, b :: rest⟩ 1 = ⟨capacity, rest⟩ := rfl
      rw [takeFrame?, search_cons]
      dsimp only
      split
      · rw [hdiscard, ih]
        rfl
      · split
        · rfl
        · cases hverdict : rx.verdict (b :: rest) with
          | frame n =>
              have hn : n ≤ (b :: rest).length := le_of_accepts (accepts_of_verdict hverdict)
              dsimp only
              rw [FrameBuffer.extract?_of_le hn]
              rfl
          | incomplete => rfl
          | invalid =>
              dsimp only
              rw [hdiscard, ih]
              rfl

end RxFormat

namespace Assembler

variable {assembler : Assembler} {rx : RxFormat} {least greatest : Nat}

/-! ## What is kept -/

theorem Spare.feed (h : assembler.Spare greatest) (huses : assembler.Uses rx)
    (hranges : rx.Ranges least greatest) (b : UInt8) : (assembler.feed b).2.Spare greatest := by
  obtain ⟨hoverflow, hroom⟩ := h
  obtain ⟨hpending, hroom'⟩ := pending_feed huses hranges hroom b
  have hcapacity := huses.capacity_eq
  have hgreatest := hranges.greatest_le
  have hnothing : (rx.search (assembler.pending ++ [b])).rest.length -
      assembler.buffer.capacity = 0 := by
    rw [← hpending]
    omega
  refine ⟨?_, hroom'⟩
  rw [feed_eq, huses.rx_eq]
  change assembler.stats.overflowDrops + _ = 0
  rw [hoverflow, Nat.zero_add]
  exact hnothing

theorem Spare.of_ranges (hranges : rx.Ranges least greatest) :
    (ofFormat rx).Spare greatest := ⟨rfl, pending_ofFormat_lt hranges⟩

/-- Each octet finds room. -/
theorem keeps_feed (h : rx.Sound) (huses : assembler.Uses rx)
    (hkeeps : rx.framing.Keeps rx.capacity assembler) (b : UInt8) :
    rx.framing.Keeps rx.capacity (assembler.feed b).2 := by
  cases hframing : rx.framing with
  | fixed length =>
      rw [hframing] at hkeeps
      have hranges : rx.Ranges length length := h.ranges (by rw [hframing]; rfl)
      exact Spare.feed hkeeps huses hranges b
  | footer => exact length_pending_feed_le huses h b
  | sweep least greatest =>
      rw [hframing] at hkeeps
      have hranges : rx.Ranges least greatest := h.ranges (by rw [hframing]; rfl)
      exact Spare.feed hkeeps huses hranges b

theorem keeps_ofFormat (h : rx.Sound) : rx.framing.Keeps rx.capacity (ofFormat rx) := by
  cases hframing : rx.framing with
  | fixed length => exact Spare.of_ranges (h.ranges (by rw [hframing]; rfl))
  | footer => exact Nat.zero_le _
  | sweep least greatest => exact Spare.of_ranges (h.ranges (by rw [hframing]; rfl))

/-- Fewer octets are kept as well. -/
theorem keeps_of_le {framing : Framing} {capacity : Nat} {next : Assembler}
    (h : framing.Keeps capacity assembler)
    (hoverflow : next.stats.overflowDrops = assembler.stats.overflowDrops)
    (hpending : next.pending.length ≤ assembler.pending.length) :
    framing.Keeps capacity next := by
  cases framing with
  | fixed length => exact ⟨hoverflow.trans h.1, Nat.lt_of_le_of_lt hpending h.2⟩
  | footer => exact Nat.le_trans hpending h
  | sweep least greatest => exact ⟨hoverflow.trans h.1, Nat.lt_of_le_of_lt hpending h.2⟩

theorem keeps_touch {framing : Framing} {capacity : Nat} (h : framing.Keeps capacity assembler)
    (now : Nat) : framing.Keeps capacity (assembler.touch now) := by
  unfold touch
  split
  · exact keeps_of_le h rfl (Nat.zero_le _)
  · exact keeps_of_le h rfl (Nat.le_refl _)

theorem keeps_step (h : rx.Sound) (huses : assembler.Uses rx)
    (hkeeps : rx.framing.Keeps rx.capacity assembler) (s : Step) :
    rx.framing.Keeps rx.capacity (assembler.step s).2 := by
  cases s with
  | reset => exact keeps_of_le hkeeps rfl (Nat.zero_le _)
  | chunk chunk =>
      by_cases hempty : chunk.octets = []
      · rw [step, hempty, push_nil]
        exact hkeeps
      · rw [step, push_of_ne_nil _ hempty]
        exact (huses.touch chunk.time).feedAll_preserves _
          (fun _ huses hkeeps b => keeps_feed h huses hkeeps b) (keeps_touch hkeeps chunk.time)
          chunk.octets

theorem keeps_run (h : rx.Sound) (huses : assembler.Uses rx)
    (hkeeps : rx.framing.Keeps rx.capacity assembler) (steps : List Step) :
    rx.framing.Keeps rx.capacity (assembler.run steps).2 := by
  induction steps generalizing assembler with
  | nil => exact hkeeps
  | cons s rest ih => exact ih (huses.run [s]) (keeps_step h huses hkeeps s)

/-- **The capacity that was checked is enough.**  After any run an assembler for an accepted line
has pushed out nothing and keeps less than a greatest frame where the framing sets one, and keeps no
more than its capacity otherwise.  Whenever an octet comes within a chunk, the frame that is
accepted can be taken out of the buffer: the work on the buffer has a result, which is the frame
that the octet gives and, cut back to the capacity, the buffer that it leaves. -/
theorem run_has_room {line : Line} (hline : line.Accepted) (steps : List Step) :
    let assembler := ((ofFormat line.rx).run steps).2
    line.rx.framing.Keeps line.rx.capacity assembler ∧
    ∀ (now : Nat) (early : Bytes) (b : UInt8),
      let before := ((assembler.touch now).feedAll early).2
      ∃ left, line.rx.takeFrame? (before.buffer.push b) = some ((before.feed b).1, left) ∧
        left.enforce = (before.feed b).2.buffer := by
  intro assembler
  have huses : assembler.Uses line.rx := (uses_ofFormat line.rx).run steps
  have hkeeps := keeps_run hline.sound (uses_ofFormat line.rx) (keeps_ofFormat hline.sound) steps
  refine ⟨hkeeps, ?_⟩
  intro now early b before
  have hbefore : before.Uses line.rx := (huses.touch now).feedAll early
  refine ⟨{ before.buffer with octets := (line.rx.search (before.pending ++ [b])).rest }, ?_, ?_⟩
  · rw [RxFormat.takeFrame?_eq, feed_eq, hbefore.rx_eq]
    rfl
  · rw [feed_eq, hbefore.rx_eq]
    rfl

/-- A greatest frame arrives in two chunks, behind an octet that is skipped. -/
theorem run_has_room_tight :
    let assembler :=
      ((ofFormat Line.tight.rx).run [.chunk ⟨[0x00, 0xF7, 0x01, 0x01, 0x01, 0x01], 0⟩]).2
    let before := ((assembler.touch 10).feedAll [0x01]).2
    Line.tight.Accepted ∧ assembler.Spare 7 ∧ before.pending.length = 6 ∧
      (before.feed 0xFC).1 = some [0xF7, 0x01, 0x01, 0x01, 0x01, 0x01, 0xFC] ∧
      ∃ left, Line.tight.rx.takeFrame? (before.buffer.push 0xFC) =
          some ((before.feed 0xFC).1, left) ∧ left.enforce = (before.feed 0xFC).2.buffer := by
  intro assembler before
  obtain ⟨hkeeps, htaken⟩ := run_has_room Line.accepted_tight
    [.chunk ⟨[0x00, 0xF7, 0x01, 0x01, 0x01, 0x01], 0⟩]
  exact ⟨Line.accepted_tight, hkeeps, by decide, by decide, htaken 10 [0x01] 0xFC⟩

end Assembler

end PanelBus
