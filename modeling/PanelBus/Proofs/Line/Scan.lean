import PanelBus.Proofs.Line.Bursts
import PanelBus.Proofs.Line.Search
/-!
# Frames of a whole stream

Where the framing sets the lengths of frames, the frames of a stream can be said without any
buffer: go through the stream from the left, take the least frame that starts at the present octet,
or move on by one octet if none can.  An assembler decides the same octet by octet, with only a part
of the stream before it.
-/

namespace PanelBus

/-- What a scan of a stream gives. -/
structure Scan where
  /-- The frames taken, in order. -/
  frames : List Bytes := []
  /-- How often the scan moved on by one octet. -/
  moves : Nat := 0
  /-- How many of these moves left an octet at which a whole header starts. -/
  failures : Nat := 0
deriving DecidableEq, Repr

namespace Scan

instance : Append Scan where
  append s t :=
    { frames := s.frames ++ t.frames
      moves := s.moves + t.moves
      failures := s.failures + t.failures }

@[simp] theorem frames_append (s t : Scan) : (s ++ t).frames = s.frames ++ t.frames := rfl

@[simp] theorem moves_append (s t : Scan) : (s ++ t).moves = s.moves + t.moves := rfl

@[simp] theorem failures_append (s t : Scan) : (s ++ t).failures = s.failures + t.failures := rfl

@[ext] theorem ext {s t : Scan} (hframes : s.frames = t.frames) (hmoves : s.moves = t.moves)
    (hfailures : s.failures = t.failures) : s = t := by
  cases s
  cases t
  simp_all

theorem append_assoc (s t u : Scan) : s ++ t ++ u = s ++ (t ++ u) := by
  ext <;> simp [Nat.add_assoc]

theorem empty_append (s : Scan) : ({} : Scan) ++ s = s := by
  ext <;> simp

end Scan

namespace RxFormat

/-- The first `n` octets of the stream are a frame. -/
def IsFrame (rx : RxFormat) (stream : Bytes) (n : Nat) : Prop :=
  n ≤ stream.length ∧ rx.header <+: stream.take n ∧ rx.footer <:+ stream.take n ∧
    rx.checksum.verifyFrame (stream.take n) rx.header.length rx.footer.length

instance (rx : RxFormat) (stream : Bytes) (n : Nat) : Decidable (rx.IsFrame stream n) :=
  inferInstanceAs (Decidable (_ ∧ _ ∧ _ ∧ _))

/-- The scan of a stream for frames of `least` to `greatest` octets.  It stops where the octets
that are left may still become a frame. -/
def scan (rx : RxFormat) (least greatest : Nat) : Bytes → Scan
  | [] => {}
  | b :: rest =>
    let stream := b :: rest
    match (List.range' least (greatest + 1 - least)).find? fun n => rx.IsFrame stream n with
    | some n => { frames := [stream.take n] } ++ rx.scan least greatest (rest.drop (n - 1))
    | none =>
      if ¬(rx.header <+: stream ∨ stream <+: rx.header) ∨ greatest ≤ stream.length then
        { moves := 1, failures := if rx.header <+: stream then 1 else 0 } ++
          rx.scan least greatest rest
      else {}
termination_by stream => stream.length

theorem isFrame_iff {rx : RxFormat} {stream : Bytes} {n : Nat}
    (hn : rx.header.length ≤ n) :
    rx.IsFrame stream n ↔ rx.header <+: stream ∧ rx.accepts stream n = true := by
  unfold IsFrame accepts
  have hheader : n ≤ stream.length → (rx.header <+: stream.take n ↔ rx.header <+: stream) := by
    intro hle
    rw [List.prefix_take_iff]
    exact and_iff_left hn
  simp only [Bool.and_eq_true, decide_eq_true_eq, List.isSuffixOf_iff_suffix]
  constructor
  · rintro ⟨hle, hstarts, hfooter, hverify⟩
    exact ⟨(hheader hle).mp hstarts, ⟨hle, hfooter⟩, hverify⟩
  · rintro ⟨hstarts, ⟨hle, hfooter⟩, hverify⟩
    exact ⟨hle, (hheader hle).mpr hstarts, hfooter, hverify⟩

section

variable {rx : RxFormat} {least greatest : Nat} (h : rx.Ranges least greatest)
include h

theorem Ranges.find?_of_header {stream : Bytes} (hheader : rx.header <+: stream) :
    ((List.range' least (greatest + 1 - least)).find? fun n => rx.IsFrame stream n) =
      rx.leastAccepted? stream least greatest := by
  have hoverhead := h.overhead_lt
  unfold overhead at hoverhead
  unfold leastAccepted?
  rw [← List.head?_filter, ← List.head?_filter]
  congr 1
  apply List.filter_congr
  intro n hn
  rw [List.mem_range'_1] at hn
  have hframe : rx.IsFrame stream n ↔ rx.header <+: stream ∧ rx.accepts stream n = true :=
    isFrame_iff (by omega)
  simp [hframe, hheader]

theorem Ranges.find?_of_not_header {stream : Bytes} (hheader : ¬rx.header <+: stream) :
    ((List.range' least (greatest + 1 - least)).find? fun n => rx.IsFrame stream n) = none := by
  rw [List.find?_eq_none]
  intro n hn hframe
  rw [List.mem_range'_1] at hn
  have hoverhead := h.overhead_lt
  unfold overhead at hoverhead
  have hn' : rx.header.length ≤ n := by omega
  exact hheader ((isFrame_iff hn').mp (by simpa using hframe)).1

/-! The four things a scan can do are those of a search. -/

theorem Ranges.scan_skip {b : UInt8} {rest : Bytes} (hagrees : ¬rx.headerAgrees (b :: rest)) :
    rx.scan least greatest (b :: rest) = { moves := 1 } ++ rx.scan least greatest rest := by
  rw [headerAgrees_iff] at hagrees
  have hheader : ¬rx.header <+: b :: rest := fun hstarts => hagrees (.inl hstarts)
  rw [scan, h.find?_of_not_header hheader]
  dsimp only
  rw [if_pos (Or.inl hagrees), if_neg hheader]

theorem Ranges.scan_found {b : UInt8} {rest : Bytes} {n : Nat} (hheader : rx.header <+: b :: rest)
    (hfound : rx.leastAccepted? (b :: rest) least greatest = some n) :
    rx.scan least greatest (b :: rest) =
      { frames := [(b :: rest).take n] } ++ rx.scan least greatest ((b :: rest).drop n) := by
  have hn := (leastAccepted?_eq_some_iff.mp hfound).1
  have hoverhead := h.overhead_lt
  obtain ⟨k, rfl⟩ : ∃ k, n = k + 1 := ⟨n - 1, by omega⟩
  rw [scan, h.find?_of_header hheader, hfound]
  rfl

theorem Ranges.scan_wait {stream : Bytes} (hagrees : rx.headerAgrees stream)
    (hnone : rx.leastAccepted? stream least greatest = none) (hshort : stream.length < greatest) :
    rx.scan least greatest stream = {} := by
  cases stream with
  | nil => rw [scan]
  | cons b rest =>
      have hfind : ((List.range' least (greatest + 1 - least)).find? fun n =>
          rx.IsFrame (b :: rest) n) = none := by
        by_cases hheader : rx.header <+: b :: rest
        · rw [h.find?_of_header hheader, hnone]
        · exact h.find?_of_not_header hheader
      rw [headerAgrees_iff] at hagrees
      have hstop : ¬(¬(rx.header <+: b :: rest ∨ b :: rest <+: rx.header) ∨
          greatest ≤ (b :: rest).length) := by
        rintro (hdisagrees | hfull)
        · exact hdisagrees hagrees
        · omega
      rw [scan, hfind]
      dsimp only
      rw [if_neg hstop]

theorem Ranges.scan_full {b : UInt8} {rest : Bytes} (hheader : rx.header <+: b :: rest)
    (hnone : rx.leastAccepted? (b :: rest) least greatest = none)
    (hfull : greatest ≤ (b :: rest).length) :
    rx.scan least greatest (b :: rest) =
      { moves := 1, failures := 1 } ++ rx.scan least greatest rest := by
  rw [scan, h.find?_of_header hheader, hnone]
  dsimp only
  rw [if_pos (Or.inr hfull), if_pos hheader]

/-- A search takes the part of a scan that needs none of the octets still to come. -/
theorem Ranges.scan_search (octets more : Bytes) :
    rx.scan least greatest (octets ++ more) =
      { frames := (rx.search octets).frame?.toList
        moves := (rx.search octets).drops
        failures := (rx.search octets).failures } ++
      rx.scan least greatest ((rx.search octets).rest ++ more) := by
  induction octets with
  | nil => exact (Scan.empty_append _).symm
  | cons b rest ih =>
      rcases h.search_cases b rest with ⟨hagrees, hsearch⟩ | ⟨n, hheader, hfound, hsearch⟩ |
        ⟨_, _, _, hsearch⟩ | ⟨hheader, hnone, hfull, hsearch⟩
      · have hmore : ¬rx.headerAgrees (b :: (rest ++ more)) := fun hmore =>
          hagrees (headerAgrees_of_append hmore)
        rw [hsearch, List.cons_append, h.scan_skip hmore, ih, ← Scan.append_assoc]
        congr 1
        ext <;> simp [Search.afterDrop, Nat.add_comm]
      · have hn := le_of_accepts (leastAccepted?_eq_some_iff.mp hfound).2.1
        have hstarts := hheader.trans (List.prefix_append (b :: rest) more)
        have hfound' := leastAccepted?_append hfound more
        rw [List.cons_append] at hstarts hfound' ⊢
        rw [hsearch, h.scan_found hstarts hfound', ← List.cons_append,
          List.take_append_of_le_length hn, List.drop_append_of_le_length hn]
        rfl
      · rw [hsearch]
        exact (Scan.empty_append _).symm
      · have hstarts := hheader.trans (List.prefix_append (b :: rest) more)
        have hnone' := leastAccepted?_append_none hnone hfull more
        have hfull' : greatest ≤ ((b :: rest) ++ more).length := by
          rw [List.length_append]
          omega
        rw [List.cons_append] at hstarts hnone' hfull' ⊢
        rw [hsearch, h.scan_full hstarts hnone' hfull', ih, ← Scan.append_assoc]
        congr 1
        ext <;> simp [Search.afterFailure, Nat.add_comm]

/-- What a search without a frame leaves has to wait. -/
theorem Ranges.scan_rest {octets : Bytes} (hnone : (rx.search octets).frame? = none) :
    rx.scan least greatest (rx.search octets).rest = {} := by
  induction octets with
  | nil =>
      change rx.scan least greatest [] = {}
      rw [scan]
  | cons b rest ih =>
      rcases h.search_cases b rest with ⟨_, hsearch⟩ | ⟨n, _, _, hsearch⟩ |
        ⟨hagrees, hwait, hshort, hsearch⟩ | ⟨_, _, _, hsearch⟩
      · rw [hsearch] at hnone ⊢
        exact ih hnone
      · rw [hsearch] at hnone
        cases hnone
      · rw [hsearch]
        exact h.scan_wait hagrees hwait hshort
      · rw [hsearch] at hnone ⊢
        exact ih hnone

/-- A search finds a frame exactly where a scan takes one. -/
theorem Ranges.search_eq_none_iff (octets : Bytes) :
    (rx.search octets).frame? = none ↔ (rx.scan least greatest octets).frames = [] := by
  have hscan := h.scan_search octets []
  rw [List.append_nil, List.append_nil] at hscan
  constructor
  · intro hnone
    rw [hscan, h.scan_rest hnone, hnone]
    rfl
  · intro hframes
    rw [hscan] at hframes
    cases hfound : (rx.search octets).frame? with
    | none => rfl
    | some frame => simp [hfound] at hframes

end

end RxFormat

namespace Assembler

open RxFormat

variable {assembler : Assembler} {rx : RxFormat} {least greatest : Nat}

/-- What an assembler has counted of a scan. -/
def counted (assembler : Assembler) : Scan where
  moves := assembler.stats.resyncDrops
  failures := assembler.stats.checksumFailures

/-- The buffer is never full where the framing sets the lengths of frames. -/
theorem pending_feed (huses : assembler.Uses rx) (h : rx.Ranges least greatest)
    (hroom : assembler.pending.length < greatest) (b : UInt8) :
    (assembler.feed b).2.pending = (rx.search (assembler.pending ++ [b])).rest ∧
      (assembler.feed b).2.pending.length < greatest := by
  have hcapacity := huses.capacity_eq
  have hgreatest := h.greatest_le
  have hlength : (assembler.pending ++ [b]).length ≤ greatest := by
    rw [List.length_append, List.length_singleton]
    omega
  have hrest := h.length_rest_lt hlength
  have hpending : (assembler.feed b).2.pending = (rx.search (assembler.pending ++ [b])).rest := by
    have hexcess : (rx.search (assembler.pending ++ [b])).rest.length -
        assembler.buffer.capacity = 0 := by omega
    rw [feed_eq, huses.rx_eq]
    change List.drop _ _ = _
    rw [hexcess, List.drop_zero]
  exact ⟨hpending, by rwa [hpending]⟩

theorem pending_feedAll_lt (huses : assembler.Uses rx) (h : rx.Ranges least greatest)
    (hroom : assembler.pending.length < greatest) (bytes : Bytes) :
    (assembler.feedAll bytes).2.pending.length < greatest :=
  Uses.feedAll_preserves (fun a => a.pending.length < greatest)
    (fun _ huses hroom b => (pending_feed huses h hroom b).2) huses hroom bytes

theorem scan_feed (huses : assembler.Uses rx) (h : rx.Ranges least greatest)
    (hroom : assembler.pending.length < greatest) (b : UInt8) (more : Bytes) :
    assembler.counted ++ rx.scan least greatest (assembler.pending ++ b :: more) =
      { frames := (assembler.feed b).1.toList } ++ ((assembler.feed b).2.counted ++
        rx.scan least greatest ((assembler.feed b).2.pending ++ more)) := by
  have hscan := h.scan_search (assembler.pending ++ [b]) more
  rw [List.append_assoc, List.singleton_append] at hscan
  rw [(pending_feed huses h hroom b).1, hscan, feed_eq, huses.rx_eq]
  ext <;> simp [counted, Search.stats, Nat.add_assoc]

theorem scan_feedAll (huses : assembler.Uses rx) (h : rx.Ranges least greatest)
    (hroom : assembler.pending.length < greatest) (bytes : Bytes) :
    assembler.counted ++ rx.scan least greatest (assembler.pending ++ bytes) =
      { frames := (assembler.feedAll bytes).1 } ++ ((assembler.feedAll bytes).2.counted ++
        rx.scan least greatest (assembler.feedAll bytes).2.pending) := by
  induction bytes generalizing assembler with
  | nil =>
      rw [List.append_nil]
      exact (Scan.empty_append _).symm
  | cons b rest ih =>
      have hnext := ih (huses.feed b) (pending_feed huses h hroom b).2
      rw [scan_feed huses h hroom, hnext, feedAll_cons, ← Scan.append_assoc]
      rfl

theorem pending_ofFormat_lt (h : rx.Ranges least greatest) :
    (ofFormat rx).pending.length < greatest := by
  have hoverhead := h.overhead_lt
  have hle := h.least_le
  change 0 < greatest
  omega

/-- The scan of a stream is what a new assembler makes of it and the scan of what is pending. -/
theorem scan_ofFormat (h : rx.Ranges least greatest) (stream : Bytes) :
    rx.scan least greatest stream =
      { frames := ((ofFormat rx).feedAll stream).1 } ++ (((ofFormat rx).feedAll stream).2.counted ++
        rx.scan least greatest ((ofFormat rx).feedAll stream).2.pending) := by
  rw [← scan_feedAll (uses_ofFormat rx) h (pending_ofFormat_lt h) stream]
  exact (Scan.empty_append _).symm

/-- Where all frames have one length, nothing is left behind a frame. -/
theorem scan_pending_feed {length : Nat} (huses : assembler.Uses rx) (h : rx.Ranges length length)
    (hroom : assembler.pending.length < length) (b : UInt8) :
    rx.scan length length (assembler.feed b).2.pending = {} := by
  rw [(pending_feed huses h hroom b).1]
  cases hfound : (rx.search (assembler.pending ++ [b])).frame? with
  | none => exact h.scan_rest hfound
  | some frame =>
      have hframe := h.least_le_of_found hfound
      have hlength := length_of_found hfound
      rw [List.length_append, List.length_singleton] at hlength
      have hrest : (rx.search (assembler.pending ++ [b])).rest = [] :=
        List.eq_nil_of_length_eq_zero (by omega)
      rw [hrest, scan]

theorem scan_pending_feedAll {length : Nat} (h : rx.Ranges length length) (bytes : Bytes) :
    rx.scan length length ((ofFormat rx).feedAll bytes).2.pending = {} := by
  have hstart : rx.scan length length (ofFormat rx).pending = {} := by
    change rx.scan length length [] = {}
    rw [scan]
  have hkept := (uses_ofFormat rx).feedAll_preserves
    (fun a => a.pending.length < length ∧ rx.scan length length a.pending = {})
    (fun _ huses hkept b =>
      ⟨(pending_feed huses h hkept.1 b).2, scan_pending_feed huses h hkept.1 b⟩)
    ⟨pending_ofFormat_lt h, hstart⟩ bytes
  exact hkept.2

/-- **Frames are those of the leftmost parse.**  However a stream is cut into chunks, as long as no
timeout is counted, its scan is what the assembler has given and counted, followed by the scan of
what is pending; for frames of one length nothing of the scan is pending. -/
theorem run_eq_scan {line : Line} (hline : line.Accepted) {least greatest : Nat}
    (hrange : line.rx.framing.range? = some (least, greatest)) (chunks : List Chunk)
    (huntimed : ((ofFormat line.rx).run (chunks.map .chunk)).2.stats.timeouts = 0) :
    let result := (ofFormat line.rx).run (chunks.map .chunk)
    let stream := octetsOf chunks
    let given : Scan :=
      { frames := result.1
        moves := result.2.stats.resyncDrops
        failures := result.2.stats.checksumFailures }
    line.rx.scan least greatest stream =
      given ++ line.rx.scan least greatest result.2.pending ∧
    ∀ length, line.rx.framing = .fixed length →
      line.rx.scan least greatest result.2.pending = {} ∧
        line.rx.scan least greatest stream = given := by
  intro result stream given
  have h := hline.sound.ranges hrange
  obtain ⟨lastRx?, hrun⟩ := run_untimed huntimed
  have hgiven : given = { frames := ((ofFormat line.rx).feedAll stream).1 } ++
      ((ofFormat line.rx).feedAll stream).2.counted := by
    simp only [given, result, hrun]
    ext <;> simp [counted, stream]
  have hpending : result.2.pending = ((ofFormat line.rx).feedAll stream).2.pending := by
    simp only [result, hrun]
    rfl
  have hscan : line.rx.scan least greatest stream =
      given ++ line.rx.scan least greatest result.2.pending := by
    rw [hgiven, hpending, Scan.append_assoc, ← scan_ofFormat h stream]
  refine ⟨hscan, ?_⟩
  intro length hfixed
  obtain ⟨rfl, rfl⟩ : length = least ∧ length = greatest := by
    rw [hfixed] at hrange
    cases hrange
    exact ⟨rfl, rfl⟩
  have hnone : line.rx.scan length length result.2.pending = {} := by
    rw [hpending]
    exact scan_pending_feedAll h stream
  refine ⟨hnone, ?_⟩
  rw [hscan, hnone]
  ext <;> simp

/-- The first octet looks like a header.  When the window is full it is given up and a frame is
found behind it; the next frame is pending. -/
theorem run_eq_scan_sample :
    let chunks : List Chunk := [⟨[0xF7, 0xF7, 0x01, 0xF8], 0⟩, ⟨[0xF7, 0x02, 0xF9], 40⟩]
    let result := (ofFormat Line.sample.rx).run (chunks.map .chunk)
    result.2.stats.timeouts = 0 ∧ result.1 = [[0xF7, 0x01, 0xF8]] ∧
      result.2.pending = [0xF7, 0x02, 0xF9] ∧
      Line.sample.rx.scan 3 7 (octetsOf chunks) =
        { frames := result.1
          moves := result.2.stats.resyncDrops
          failures := result.2.stats.checksumFailures } ++
        Line.sample.rx.scan 3 7 result.2.pending := by
  intro chunks result
  have huntimed : result.2.stats.timeouts = 0 := by decide
  exact ⟨huntimed, by decide, by decide,
    (run_eq_scan Line.accepted_sample rfl chunks huntimed).1⟩

end Assembler

end PanelBus
