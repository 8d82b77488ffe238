import PanelBus.Line.Assembler
import Mathlib.Algebra.Group.Basic
/-!
# Runs of an assembler

A run is a list of steps: chunks of octets with the times at which they arrive, and resets.  What
octets do to an assembler depends on its buffer only; the counters and the time of the last octet
are carried along, which `shift` makes precise.
-/

namespace PanelBus

namespace AssemblerStats

@[ext] theorem ext {s t : AssemblerStats} (hframes : s.frames = t.frames)
    (hfailures : s.checksumFailures = t.checksumFailures)
    (hresync : s.resyncDrops = t.resyncDrops) (hoverflow : s.overflowDrops = t.overflowDrops)
    (htimeouts : s.timeouts = t.timeouts) : s = t := by
  cases s
  cases t
  simp_all

instance : Zero AssemblerStats := ⟨{}⟩

instance : Add AssemblerStats where
  add s t :=
    { frames := s.frames + t.frames
      checksumFailures := s.checksumFailures + t.checksumFailures
      resyncDrops := s.resyncDrops + t.resyncDrops
      overflowDrops := s.overflowDrops + t.overflowDrops
      timeouts := s.timeouts + t.timeouts }

@[simp] theorem frames_zero : (0 : AssemblerStats).frames = 0 := rfl

@[simp] theorem checksumFailures_zero : (0 : AssemblerStats).checksumFailures = 0 := rfl

@[simp] theorem resyncDrops_zero : (0 : AssemblerStats).resyncDrops = 0 := rfl

@[simp] theorem overflowDrops_zero : (0 : AssemblerStats).overflowDrops = 0 := rfl

@[simp] theorem timeouts_zero : (0 : AssemblerStats).timeouts = 0 := rfl

@[simp] theorem frames_add (s t : AssemblerStats) : (s + t).frames = s.frames + t.frames := rfl

@[simp] theorem checksumFailures_add (s t : AssemblerStats) :
    (s + t).checksumFailures = s.checksumFailures + t.checksumFailures := rfl

@[simp] theorem resyncDrops_add (s t : AssemblerStats) :
    (s + t).resyncDrops = s.resyncDrops + t.resyncDrops := rfl

@[simp] theorem overflowDrops_add (s t : AssemblerStats) :
    (s + t).overflowDrops = s.overflowDrops + t.overflowDrops := rfl

@[simp] theorem timeouts_add (s t : AssemblerStats) :
    (s + t).timeouts = s.timeouts + t.timeouts := rfl

instance : AddCommMonoid AssemblerStats where
  add_assoc s t u := by ext <;> simp [Nat.add_assoc]
  zero_add s := by ext <;> simp
  add_zero s := by ext <;> simp
  add_comm s t := by ext <;> simp [Nat.add_comm]
  nsmul := nsmulRec

end AssemblerStats

/-- What a search adds to the counters when `capacity` octets may stay. -/
def Search.stats (search : Search) (capacity : Nat) : AssemblerStats where
  frames := search.frame?.toList.length
  checksumFailures := search.failures
  resyncDrops := search.drops
  overflowDrops := search.rest.length - capacity

namespace Assembler

/-- Octets with the time at which they arrive, in milliseconds. -/
structure Chunk where
  octets : Bytes
  time : Nat
deriving DecidableEq, Repr

/-- What can be done to an assembler. -/
inductive Step where
  | chunk (chunk : Chunk)
  | reset
deriving DecidableEq, Repr

/-- All octets of some chunks. -/
def octetsOf (chunks : List Chunk) : Bytes := chunks.flatMap Chunk.octets

@[simp] theorem octetsOf_nil : octetsOf [] = [] := rfl

@[simp] theorem octetsOf_cons (c : Chunk) (rest : List Chunk) :
    octetsOf (c :: rest) = c.octets ++ octetsOf rest := rfl

def step (assembler : Assembler) : Step → List Bytes × Assembler
  | .chunk chunk => assembler.push chunk.octets chunk.time
  | .reset => ([], assembler.reset)

/-- The frames that the steps give, with the assembler after them. -/
def run (assembler : Assembler) : List Step → List Bytes × Assembler
  | [] => ([], assembler)
  | s :: rest =>
      let (frames, next) := assembler.step s
      let (more, last) := next.run rest
      (frames ++ more, last)

@[simp] theorem run_nil (assembler : Assembler) : assembler.run [] = ([], assembler) := rfl

theorem run_cons (assembler : Assembler) (s : Step) (rest : List Step) :
    assembler.run (s :: rest) =
      ((assembler.step s).1 ++ ((assembler.step s).2.run rest).1,
        ((assembler.step s).2.run rest).2) := rfl

theorem run_append (assembler : Assembler) (a b : List Step) :
    assembler.run (a ++ b) =
      ((assembler.run a).1 ++ ((assembler.run a).2.run b).1, ((assembler.run a).2.run b).2) := by
  induction a generalizing assembler with
  | nil => rfl
  | cons s rest ih =>
      rw [List.cons_append, run_cons, run_cons, ih]
      simp only [List.append_assoc]

/-! ## Octets -/

theorem feed_eq (assembler : Assembler) (b : UInt8) :
    assembler.feed b =
      let search := assembler.rx.search (assembler.pending ++ [b])
      let excess := search.rest.length - assembler.buffer.capacity
      (search.frame?,
        { assembler with
          buffer := { assembler.buffer with octets := search.rest.drop excess }
          stats := assembler.stats + search.stats assembler.buffer.capacity }) := rfl

theorem feedAll_cons (assembler : Assembler) (b : UInt8) (rest : Bytes) :
    assembler.feedAll (b :: rest) =
      ((assembler.feed b).1.toList ++ ((assembler.feed b).2.feedAll rest).1,
        ((assembler.feed b).2.feedAll rest).2) := rfl

/-- Octets may be fed in parts. -/
theorem feedAll_append (assembler : Assembler) (a b : Bytes) :
    assembler.feedAll (a ++ b) =
      ((assembler.feedAll a).1 ++ ((assembler.feedAll a).2.feedAll b).1,
        ((assembler.feedAll a).2.feedAll b).2) := by
  induction a generalizing assembler with
  | nil => rfl
  | cons x rest ih =>
      rw [List.cons_append, feedAll_cons, feedAll_cons, ih]
      simp only [List.append_assoc]

theorem feedAll_singleton (assembler : Assembler) (b : UInt8) :
    assembler.feedAll [b] = ((assembler.feed b).1.toList, (assembler.feed b).2) := by
  rw [feedAll_cons]
  simp [feedAll]

theorem feedAll_concat (assembler : Assembler) (bytes : Bytes) (b : UInt8) :
    assembler.feedAll (bytes ++ [b]) =
      ((assembler.feedAll bytes).1 ++ ((assembler.feedAll bytes).2.feed b).1.toList,
        ((assembler.feedAll bytes).2.feed b).2) := by
  rw [feedAll_append, feedAll_singleton]

/-- An assembler for `rx`, whatever it has received. -/
structure Uses (assembler : Assembler) (rx : RxFormat) : Prop where
  rx_eq : assembler.rx = rx
  capacity_eq : assembler.buffer.capacity = max rx.capacity 1

theorem uses_ofFormat (rx : RxFormat) : (ofFormat rx).Uses rx := ⟨rfl, rfl⟩

theorem Uses.feed {assembler : Assembler} {rx : RxFormat} (h : assembler.Uses rx) (b : UInt8) :
    (assembler.feed b).2.Uses rx := ⟨h.rx_eq, h.capacity_eq⟩

theorem Uses.feedAll {assembler : Assembler} {rx : RxFormat} (h : assembler.Uses rx)
    (bytes : Bytes) : (assembler.feedAll bytes).2.Uses rx := by
  induction bytes generalizing assembler with
  | nil => exact h
  | cons b rest ih => exact ih (h.feed b)

/-- What each octet preserves, all of them preserve. -/
theorem Uses.feedAll_preserves {rx : RxFormat} (P : Assembler → Prop)
    (hfeed : ∀ assembler : Assembler, assembler.Uses rx → P assembler →
      ∀ b, P (assembler.feed b).2)
    {assembler : Assembler} (huses : assembler.Uses rx) (h : P assembler) (bytes : Bytes) :
    P (assembler.feedAll bytes).2 := by
  induction bytes generalizing assembler with
  | nil => exact h
  | cons b rest ih => exact ih (huses.feed b) (hfeed assembler huses h b)

/-! ## What a run carries along -/

/-- The assembler with `stats` counted before, which last received octets at `lastRx?`. -/
def shift (assembler : Assembler) (stats : AssemblerStats) (lastRx? : Option Nat) : Assembler :=
  { assembler with lastRx?, stats := stats + assembler.stats }

@[simp] theorem rx_shift (assembler : Assembler) (stats : AssemblerStats) (lastRx? : Option Nat) :
    (assembler.shift stats lastRx?).rx = assembler.rx := rfl

@[simp] theorem pending_shift (assembler : Assembler) (stats : AssemblerStats)
    (lastRx? : Option Nat) : (assembler.shift stats lastRx?).pending = assembler.pending := rfl

@[simp] theorem stats_shift (assembler : Assembler) (stats : AssemblerStats)
    (lastRx? : Option Nat) :
    (assembler.shift stats lastRx?).stats = stats + assembler.stats := rfl

theorem Uses.shift {assembler : Assembler} {rx : RxFormat} (h : assembler.Uses rx)
    (stats : AssemblerStats) (lastRx? : Option Nat) : (assembler.shift stats lastRx?).Uses rx :=
  ⟨h.rx_eq, h.capacity_eq⟩

theorem feed_shift (assembler : Assembler) (stats : AssemblerStats) (lastRx? : Option Nat)
    (b : UInt8) :
    (assembler.shift stats lastRx?).feed b =
      ((assembler.feed b).1, (assembler.feed b).2.shift stats lastRx?) := by
  rw [feed_eq, feed_eq]
  simp [shift, pending, add_assoc]

theorem timeouts_feedAll (assembler : Assembler) (bytes : Bytes) :
    (assembler.feedAll bytes).2.stats.timeouts = assembler.stats.timeouts := by
  induction bytes generalizing assembler with
  | nil => rfl
  | cons b rest ih =>
      rw [feedAll_cons, ih, feed_eq]
      exact Nat.add_zero _

theorem shift_zero (assembler : Assembler) :
    assembler.shift 0 assembler.lastRx? = assembler := by
  simp [shift]

theorem shift_shift (assembler : Assembler) (stats more : AssemblerStats)
    (earlier? lastRx? : Option Nat) :
    (assembler.shift stats earlier?).shift more lastRx? =
      assembler.shift (more + stats) lastRx? := by
  simp [shift, add_assoc]

/-- Neither the counters nor the time change what octets do. -/
theorem feedAll_shift (assembler : Assembler) (stats : AssemblerStats) (lastRx? : Option Nat)
    (bytes : Bytes) :
    (assembler.shift stats lastRx?).feedAll bytes =
      ((assembler.feedAll bytes).1, (assembler.feedAll bytes).2.shift stats lastRx?) := by
  induction bytes generalizing assembler with
  | nil => rfl
  | cons b rest ih =>
      rw [feedAll_cons, feedAll_cons, feed_shift, ih]

/-- An assembler with an empty buffer is a new one with something counted before. -/
theorem Uses.eq_shift {assembler : Assembler} {rx : RxFormat} (h : assembler.Uses rx)
    (hempty : assembler.pending = []) :
    assembler = (ofFormat rx).shift assembler.stats assembler.lastRx? := by
  obtain ⟨rx', ⟨capacity, octets⟩, lastRx?, stats⟩ := assembler
  obtain rfl : rx' = rx := h.rx_eq
  obtain rfl : capacity = max rx'.capacity 1 := h.capacity_eq
  obtain rfl : octets = [] := hempty
  have hstats : stats + {} = stats := add_zero stats
  simp [Assembler.shift, ofFormat, FrameBuffer.ofCapacity, hstats]

theorem push_of_ne_nil (assembler : Assembler) {octets : Bytes} (h : octets ≠ []) (now : Nat) :
    assembler.push octets now = (assembler.touch now).feedAll octets := by
  simp [push, h]

theorem push_nil (assembler : Assembler) (now : Nat) : assembler.push [] now = ([], assembler) :=
  rfl

theorem Uses.touch {assembler : Assembler} {rx : RxFormat} (h : assembler.Uses rx) (now : Nat) :
    (assembler.touch now).Uses rx := by
  unfold Assembler.touch
  split
  · exact ⟨h.rx_eq, h.capacity_eq⟩
  · exact ⟨h.rx_eq, h.capacity_eq⟩

theorem Uses.push {assembler : Assembler} {rx : RxFormat} (h : assembler.Uses rx)
    (octets : Bytes) (now : Nat) : (assembler.push octets now).2.Uses rx := by
  by_cases hoctets : octets = []
  · subst hoctets
    exact h
  · rw [push_of_ne_nil _ hoctets]
    exact (h.touch now).feedAll octets

theorem Uses.run {assembler : Assembler} {rx : RxFormat} (h : assembler.Uses rx)
    (steps : List Step) : (assembler.run steps).2.Uses rx := by
  induction steps generalizing assembler with
  | nil => exact h
  | cons s rest ih =>
      cases s with
      | chunk chunk => exact ih (h.push chunk.octets chunk.time)
      | reset => exact ih ⟨h.rx_eq, h.capacity_eq⟩

theorem Uses.reset_eq {assembler : Assembler} {rx : RxFormat} (h : assembler.Uses rx) :
    assembler.reset = (ofFormat rx).shift assembler.stats none := by
  have hreset : assembler.reset.Uses rx := ⟨h.rx_eq, h.capacity_eq⟩
  exact hreset.eq_shift rfl

/-- A push either counts a timeout or receives its octets as a continuation. -/
theorem push_cases (assembler : Assembler) (octets : Bytes) (now : Nat) :
    (∃ lastRx?, assembler.push octets now =
      ((assembler.feedAll octets).1, (assembler.feedAll octets).2.shift 0 lastRx?)) ∨
    (assembler.push octets now).2.stats.timeouts = assembler.stats.timeouts + 1 := by
  by_cases hoctets : octets = []
  · subst hoctets
    exact .inl ⟨assembler.lastRx?, by rw [push_nil, feedAll, shift_zero]⟩
  · rw [push_of_ne_nil _ hoctets, timeouts_feedAll]
    unfold touch
    split
    · exact .inr rfl
    · refine .inl ⟨some now, ?_⟩
      rw [← feedAll_shift, shift, zero_add]

theorem run_chunks_cons (assembler : Assembler) (c : Chunk) (rest : List Chunk) :
    assembler.run ((c :: rest).map .chunk) =
      ((assembler.push c.octets c.time).1 ++
          ((assembler.push c.octets c.time).2.run (rest.map .chunk)).1,
        ((assembler.push c.octets c.time).2.run (rest.map .chunk)).2) := rfl

theorem timeouts_le_run (assembler : Assembler) (chunks : List Chunk) :
    assembler.stats.timeouts ≤ (assembler.run (chunks.map .chunk)).2.stats.timeouts := by
  induction chunks generalizing assembler with
  | nil => exact Nat.le_refl _
  | cons c rest ih =>
      have hpush : assembler.stats.timeouts ≤
          (assembler.push c.octets c.time).2.stats.timeouts := by
        rcases assembler.push_cases c.octets c.time with ⟨lastRx?, hpush⟩ | hpush
        · have hsame : (assembler.push c.octets c.time).2.stats.timeouts =
              assembler.stats.timeouts := by
            rw [hpush, stats_shift, zero_add, timeouts_feedAll]
          omega
        · omega
      rw [run_chunks_cons]
      exact Nat.le_trans hpush (ih _)

/-- Chunks among which no timeout was counted are received as one. -/
theorem run_untimed {assembler : Assembler} {chunks : List Chunk}
    (h : (assembler.run (chunks.map .chunk)).2.stats.timeouts = assembler.stats.timeouts) :
    ∃ lastRx?, assembler.run (chunks.map .chunk) =
      ((assembler.feedAll (octetsOf chunks)).1,
        (assembler.feedAll (octetsOf chunks)).2.shift 0 lastRx?) := by
  induction chunks generalizing assembler with
  | nil => exact ⟨assembler.lastRx?, by rw [octetsOf_nil, feedAll, shift_zero]; rfl⟩
  | cons c rest ih =>
      have hrest := timeouts_le_run (assembler.push c.octets c.time).2 rest
      rw [run_chunks_cons] at h ⊢
      rcases assembler.push_cases c.octets c.time with ⟨time?, hpush⟩ | hpush
      · rw [hpush] at h ⊢
        have hstats : ((assembler.feedAll c.octets).2.shift 0 time?).stats.timeouts =
            assembler.stats.timeouts := by
          rw [stats_shift, zero_add, timeouts_feedAll]
        obtain ⟨lastRx?, hrun⟩ := ih (h.trans hstats.symm)
        refine ⟨lastRx?, ?_⟩
        rw [hrun, octetsOf_cons, feedAll_append, feedAll_shift]
        simp [shift]
      · dsimp only at h
        omega

/-- Silence does nothing to an empty buffer. -/
theorem touch_ofFormat (rx : RxFormat) (stats : AssemblerStats) (lastRx? : Option Nat)
    (now : Nat) :
    ((ofFormat rx).shift stats lastRx?).touch now = (ofFormat rx).shift stats (some now) := by
  simp [touch, ofFormat, FrameBuffer.ofCapacity, shift]

/-- A new assembler takes octets alike at all times. -/
theorem push_ofFormat (rx : RxFormat) (octets : Bytes) (now : Nat) :
    ∃ lastRx?, (ofFormat rx).push octets now =
      (((ofFormat rx).feedAll octets).1, ((ofFormat rx).feedAll octets).2.shift 0 lastRx?) := by
  by_cases hoctets : octets = []
  · subst hoctets
    exact ⟨none, rfl⟩
  · refine ⟨some now, ?_⟩
    have htouch := touch_ofFormat rx 0 none now
    rw [show (ofFormat rx).shift 0 none = ofFormat rx from shift_zero (ofFormat rx)] at htouch
    rw [push_of_ne_nil _ hoctets, htouch, feedAll_shift]

end Assembler

end PanelBus
