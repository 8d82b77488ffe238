import PanelBus.Proofs.Checksum
import PanelBus.Proofs.Line.Bursts
import PanelBus.Proofs.Line.Search
/-!
# Frames over a clean line

What one side of a line sends, the other side receives, when both use the same header, footer and
checksum and the framing can tell where each frame ends.  No part of such a frame is skipped,
taken for a frame or dropped before its last octet arrives.
-/

namespace PanelBus

/-- The framing tells the end of the frame: the frame has a right length, and no shorter part of it
is taken for a frame. -/
def Framing.Delimits (rx : RxFormat) (frame : Bytes) : Framing → Prop
  | .fixed length => frame.length = length
  | .footer =>
    rx.overhead < frame.length ∧
      ∀ n < frame.length, rx.overhead < n → ¬rx.footer <:+ frame.take n
  | .sweep least greatest =>
    (least ≤ frame.length ∧ frame.length ≤ greatest) ∧
      ∀ n < frame.length, least ≤ n → ¬(rx.footer <:+ frame.take n ∧
        rx.checksum.verifyFrame (frame.take n) rx.header.length rx.footer.length)

instance (rx : RxFormat) (frame : Bytes) :
    (framing : Framing) → Decidable (framing.Delimits rx frame)
  | .fixed length => inferInstanceAs (Decidable (frame.length = length))
  | .footer => inferInstanceAs (Decidable (_ ∧ ∀ n < frame.length, _ → ¬_))
  | .sweep _ _ => inferInstanceAs (Decidable (_ ∧ ∀ n < frame.length, _ → ¬(_ ∧ _)))

namespace TxFormat

theorem frame_of_ne_nil (tx : TxFormat) {payload : Bytes} (h : payload ≠ []) :
    tx.frame payload =
      .ok (tx.header ++ payload ++ tx.checksum.compute tx.header payload ++ tx.footer) := by
  unfold frame
  rw [if_neg (by simpa using h)]

/-- Payloads with octets are all framed. -/
theorem mapM_frame (tx : TxFormat) {payloads : List Bytes}
    (h : ∀ payload ∈ payloads, payload ≠ []) :
    ∃ frames, payloads.mapM tx.frame = .ok frames ∧
      ∀ frame ∈ frames, ∃ payload ∈ payloads, tx.frame payload = .ok frame := by
  induction payloads with
  | nil => exact ⟨[], rfl, nofun⟩
  | cons payload rest ih =>
      obtain ⟨sent, hpayload⟩ : ∃ sent, tx.frame payload = .ok sent :=
        ⟨_, tx.frame_of_ne_nil (h payload List.mem_cons_self)⟩
      obtain ⟨frames, hframes, hfrom⟩ := ih fun p hp => h p (List.mem_cons_of_mem _ hp)
      refine ⟨sent :: frames, ?_, ?_⟩
      · rw [List.mapM_cons, hpayload, hframes]
        rfl
      · intro frame hframe
        rcases List.mem_cons.mp hframe with rfl | hframe
        · exact ⟨payload, List.mem_cons_self, hpayload⟩
        · obtain ⟨p, hp, hsent⟩ := hfrom frame hframe
          exact ⟨p, List.mem_cons_of_mem _ hp, hsent⟩

end TxFormat

namespace RxFormat

/-- A frame with the header at its front, valid as a whole, whose end the framing tells. -/
structure Deliverable (rx : RxFormat) (frame : Bytes) : Prop where
  header : rx.header <+: frame
  accepted : rx.accepts frame frame.length
  ne_nil : frame ≠ []
  delimited : rx.framing.Delimits rx frame

theorem deliverable_of_sent {line : Line}
    (htx : line.tx = ⟨line.rx.header, line.rx.footer, line.rx.checksum⟩) {payload frame : Bytes}
    (hne : payload ≠ []) (hsent : line.tx.frame payload = .ok frame)
    (hdelimited : line.rx.framing.Delimits line.rx frame) : line.rx.Deliverable frame := by
  rw [line.tx.frame_of_ne_nil hne, htx] at hsent
  cases hsent
  refine ⟨?_, ?_, ?_, hdelimited⟩
  · rw [List.append_assoc, List.append_assoc]
    exact List.prefix_append _ _
  · unfold accepts
    rw [List.take_length, Checksum.verifyFrame_compute, List.isSuffixOf_iff_suffix.mpr
      (List.suffix_append _ _)]
    simp
  · simp [hne]

variable {rx : RxFormat} {frame : Bytes}

/-- A part of a frame that is not all of it has to wait. -/
theorem Deliverable.verdict_early (h : rx.Deliverable frame) {early : Bytes}
    (hearly : early <+: frame) (hshort : early.length < frame.length) :
    rx.verdict early = .incomplete := by
  have htake {n : Nat} (hn : n ≤ early.length) : early.take n = frame.take n := by
    rw [List.prefix_iff_eq_take.mp hearly, List.take_take, Nat.min_eq_left hn]
  have hdelimited := h.delimited
  cases hframing : rx.framing with
  | fixed length =>
      rw [hframing] at hdelimited
      have hlength : frame.length = length := hdelimited
      unfold verdict
      rw [hframing]
      exact if_pos (by omega)
  | footer =>
      rw [hframing] at hdelimited
      have hunended : rx.Unended early := by
        by_cases hoverhead : early.length ≤ rx.overhead
        · exact .inl hoverhead
        · refine .inr ?_
          rw [List.prefix_iff_eq_take.mp hearly]
          exact hdelimited.2 early.length hshort (Nat.lt_of_not_le hoverhead)
      exact hunended.verdict_eq hframing
  | sweep least greatest =>
      rw [hframing] at hdelimited
      obtain ⟨hlengths, hearlier⟩ := hdelimited
      have hnone : rx.leastAccepted? early least greatest = none := by
        rw [leastAccepted?_eq_none_iff]
        intro n hleast _
        rw [Bool.eq_false_iff]
        intro haccepts
        have hn := le_of_accepts haccepts
        unfold accepts at haccepts
        simp only [Bool.and_eq_true, List.isSuffixOf_iff_suffix, htake hn] at haccepts
        exact hearlier n (by omega) hleast ⟨haccepts.1.2, haccepts.2⟩
      unfold verdict
      rw [hframing]
      by_cases hleast : early.length < least
      · exact if_pos hleast
      · have hgreatest : early.length < greatest := by omega
        simp only [leastAccepted?_min, hnone, if_neg hleast, if_pos hgreatest]

theorem Deliverable.verdict_eq (h : rx.Deliverable frame) :
    rx.verdict frame = .frame frame.length := by
  have haccepted := h.accepted
  have hdelimited := h.delimited
  cases hframing : rx.framing with
  | fixed length =>
      rw [hframing] at hdelimited
      obtain rfl : frame.length = length := hdelimited
      unfold verdict
      rw [hframing]
      simp [haccepted]
  | footer =>
      rw [hframing] at hdelimited
      have hended : ¬rx.Unended frame := by
        rintro (hshort | hfooter)
        · exact absurd hdelimited.1 (Nat.not_lt.mpr hshort)
        · unfold accepts at haccepted
          simp only [Bool.and_eq_true, List.isSuffixOf_iff_suffix, List.take_length] at haccepted
          exact hfooter haccepted.1.2
      rw [verdict_of_not_unended hframing hended, if_pos haccepted]
  | sweep least greatest =>
      rw [hframing] at hdelimited
      obtain ⟨⟨hleast, hgreatest⟩, hearlier⟩ := hdelimited
      have hfound : rx.leastAccepted? frame least greatest = some frame.length := by
        rw [leastAccepted?_eq_some_iff]
        refine ⟨⟨hleast, hgreatest⟩, haccepted, ?_⟩
        intro n hn hshort
        rw [Bool.eq_false_iff]
        intro haccepts
        unfold accepts at haccepts
        simp only [Bool.and_eq_true, List.isSuffixOf_iff_suffix] at haccepts
        exact hearlier n hshort hn ⟨haccepts.1.2, haccepts.2⟩
      unfold verdict
      rw [hframing]
      simp only [leastAccepted?_min, hfound, if_neg (Nat.not_lt.mpr hleast)]

theorem Deliverable.search_early (h : rx.Deliverable frame) {early : Bytes}
    (hearly : early <+: frame) (hshort : early.length < frame.length) :
    rx.search early = { rest := early } := by
  cases early with
  | nil => rfl
  | cons b rest =>
      have hagrees : rx.headerAgrees (b :: rest) :=
        (rx.headerAgrees_iff _).mpr (List.prefix_or_prefix_of_prefix h.header hearly)
      rw [search_cons, hagrees, h.verdict_early hearly hshort]
      exact ite_self _

theorem Deliverable.search_eq (h : rx.Deliverable frame) :
    rx.search frame = { frame? := some frame } := by
  have hverdict := h.verdict_eq
  have hlong := h.header.length_le
  have hagrees := (rx.headerAgrees_iff frame).mpr (.inl h.header)
  obtain ⟨b, rest, rfl⟩ := List.exists_cons_of_ne_nil h.ne_nil
  rw [search_cons, hagrees, if_neg (by simp), if_neg (by omega), hverdict]
  simp

end RxFormat

namespace Assembler

variable {rx : RxFormat}

/-- A new assembler but for the octets in its buffer. -/
def holding (rx : RxFormat) (octets : Bytes) : Assembler :=
  { ofFormat rx with buffer := { (ofFormat rx).buffer with octets } }

theorem feed_wait {octets : Bytes} {b : UInt8}
    (hsearch : rx.search (octets ++ [b]) = { rest := octets ++ [b] })
    (hroom : (octets ++ [b]).length ≤ rx.capacity) :
    (holding rx octets).feed b = (none, holding rx (octets ++ [b])) := by
  have hexcess : (octets ++ [b]).length - max rx.capacity 1 = 0 := by omega
  have hstats : Search.stats { rest := octets ++ [b] } (max rx.capacity 1) = 0 := by
    unfold Search.stats
    rw [hexcess]
    rfl
  rw [feed_eq]
  simp only [holding, pending, ofFormat, FrameBuffer.ofCapacity, hsearch, hexcess, hstats,
    List.drop_zero]
  rfl

theorem feed_last {octets frame : Bytes} {b : UInt8}
    (hsearch : rx.search (octets ++ [b]) = { frame? := some frame }) :
    (holding rx octets).feed b = (some frame, (ofFormat rx).shift { frames := 1 } none) := by
  have hstats : Search.stats { frame? := some frame } (max rx.capacity 1) = { frames := 1 } := by
    ext <;> simp [Search.stats]
  rw [feed_eq]
  simp only [holding, pending, ofFormat, FrameBuffer.ofCapacity, hsearch, hstats, List.drop_nil]
  rfl

theorem feedAll_early {octets : Bytes}
    (hwait : ∀ early, early <+: octets → rx.search early = { rest := early })
    (hroom : octets.length ≤ rx.capacity) :
    (ofFormat rx).feedAll octets = ([], holding rx octets) := by
  induction octets using List.reverseRecOn with
  | nil => rfl
  | append_singleton octets b ih =>
      have hle : octets.length ≤ rx.capacity := by
        rw [List.length_append] at hroom
        omega
      have hbefore := ih (fun early hearly =>
        hwait early (hearly.trans (List.prefix_append octets [b]))) hle
      rw [feedAll_concat, hbefore, feed_wait (hwait _ List.prefix_rfl) hroom]
      rfl

/-- A frame leaves a new assembler behind, which has counted it. -/
theorem feedAll_frame {frame : Bytes} (h : rx.Deliverable frame)
    (hroom : frame.length ≤ rx.capacity) :
    (ofFormat rx).feedAll frame = ([frame], (ofFormat rx).shift { frames := 1 } none) := by
  have hsearch := h.search_eq
  obtain ⟨early, b, rfl⟩ : ∃ early b, frame = early ++ [b] :=
    (List.eq_nil_or_concat' frame).resolve_left h.ne_nil
  have hshort : early.length < (early ++ [b]).length := by simp
  have hwait : ∀ part, part <+: early → rx.search part = { rest := part } := by
    intro part hpart
    exact h.search_early (hpart.trans (List.prefix_append early [b]))
      (Nat.lt_of_le_of_lt hpart.length_le hshort)
  rw [feedAll_concat, feedAll_early hwait (by omega), feed_last hsearch]
  rfl

theorem feedAll_frames {frames : List Bytes}
    (h : ∀ frame ∈ frames, rx.Deliverable frame ∧ frame.length ≤ rx.capacity) :
    (ofFormat rx).feedAll frames.flatten =
      (frames, (ofFormat rx).shift { frames := frames.length } none) := by
  induction frames with
  | nil => exact congrArg (Prod.mk []) (shift_zero (ofFormat rx)).symm
  | cons frame rest ih =>
      obtain ⟨hframe, hroom⟩ := h frame List.mem_cons_self
      have hrest := ih fun f hf => h f (List.mem_cons_of_mem _ hf)
      have hcount : ({ frames := 1 } : AssemblerStats) + { frames := rest.length } =
          { frames := (frame :: rest).length } := by
        ext <;> simp [Nat.add_comm]
      rw [List.flatten_cons, feedAll_append, feedAll_frame hframe hroom, feedAll_shift, hrest]
      rw [shift_shift, hcount]
      rfl

/-- **What is sent is received.**  Payloads with octets are framed.  When the framing of the other
side can tell the frames and they fit into its buffer, pushing them one behind the other into an
assembler with an empty buffer, in any chunks without a long silence, gives exactly these frames,
leaves nothing pending and counts nothing but the frames. -/
theorem run_eq_sent {line : Line}
    (htx : line.tx = ⟨line.rx.header, line.rx.footer, line.rx.checksum⟩) {payloads : List Bytes}
    (hpayloads : ∀ payload ∈ payloads, payload ≠ [])
    (hframes : ∀ payload ∈ payloads, ∀ frame, line.tx.frame payload = .ok frame →
      line.rx.framing.Delimits line.rx frame ∧ frame.length ≤ line.rx.capacity)
    {assembler : Assembler} (huses : assembler.Uses line.rx) (hempty : assembler.pending = []) :
    ∃ frames, payloads.mapM line.tx.frame = .ok frames ∧
      ∀ chunks, octetsOf chunks = frames.flatten → Steady line.rx.timeout? chunks →
        let result := assembler.run (chunks.map .chunk)
        result.1 = frames ∧ result.2.pending = [] ∧
          result.2.stats =
            { assembler.stats with frames := assembler.stats.frames + frames.length } := by
  obtain ⟨frames, hsent, hfrom⟩ := line.tx.mapM_frame hpayloads
  refine ⟨frames, hsent, ?_⟩
  intro chunks hchunks hsteady result
  have hdeliverable : ∀ frame ∈ frames,
      line.rx.Deliverable frame ∧ frame.length ≤ line.rx.capacity := by
    intro frame hframe
    obtain ⟨payload, hpayload, hok⟩ := hfrom frame hframe
    obtain ⟨hdelimits, hroom⟩ := hframes payload hpayload frame hok
    exact ⟨RxFormat.deliverable_of_sent htx (hpayloads payload hpayload) hok hdelimits, hroom⟩
  obtain ⟨lastRx?, hrun⟩ := run_steady huses hempty hsteady
  rw [hchunks, feedAll_frames hdeliverable] at hrun
  have hresult : result = _ := hrun
  rw [hresult]
  refine ⟨rfl, rfl, ?_⟩
  simp only [shift, ofFormat]
  ext <;> simp

/-- Two frames in three chunks with octets, the gaps of which are just short enough. -/
theorem run_eq_sent_sample :
    let payloads : List Bytes := [[0x01], [0x02]]
    let frames : List Bytes := [[0xF7, 0x01, 0xF8], [0xF7, 0x02, 0xF9]]
    let chunks : List Chunk :=
      [⟨[0xF7, 0x01], 0⟩, ⟨[], 30⟩, ⟨[0xF8, 0xF7, 0x02], 50⟩, ⟨[0xF9], 100⟩]
    let result := (ofFormat Line.sample.rx).run (chunks.map .chunk)
    Line.sample.Accepted ∧ payloads.mapM Line.sample.tx.frame = .ok frames ∧
      (∀ frame ∈ frames, Line.sample.rx.framing.Delimits Line.sample.rx frame ∧
        frame.length ≤ Line.sample.rx.capacity) ∧
      Steady Line.sample.rx.timeout? chunks ∧
      result.1 = frames ∧ result.2.pending = [] ∧ result.2.stats = { frames := 2 } := by
  intro payloads frames chunks result
  have hframes : ∀ frame ∈ frames, Line.sample.rx.framing.Delimits Line.sample.rx frame ∧
      frame.length ≤ Line.sample.rx.capacity := by
    decide
  have hsteady : Steady Line.sample.rx.timeout? chunks := by
    simp [Steady, chunks, carrying, Line.sample, Chunk.joins]
  have hdelimits : ∀ payload ∈ payloads, ∀ frame, Line.sample.tx.frame payload = .ok frame →
      Line.sample.rx.framing.Delimits Line.sample.rx frame ∧
        frame.length ≤ Line.sample.rx.capacity := by
    intro payload hpayload frame hframe
    rcases List.mem_pair.mp hpayload with rfl | rfl
    · cases hframe
      exact hframes _ (by decide)
    · cases hframe
      exact hframes _ (by decide)
  obtain ⟨sent, hsent, hrun⟩ :=
    run_eq_sent rfl (by decide) hdelimits (uses_ofFormat Line.sample.rx) rfl
  have hmap : payloads.mapM Line.sample.tx.frame = .ok frames := rfl
  rw [hmap] at hsent
  cases hsent
  obtain ⟨hgiven, hpending, hstats⟩ := hrun chunks rfl hsteady
  exact ⟨Line.accepted_sample, hmap, hframes, hsteady, hgiven, hpending, hstats⟩

end Assembler

end PanelBus
