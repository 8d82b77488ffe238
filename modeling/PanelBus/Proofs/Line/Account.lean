import PanelBus.Proofs.Line.Bursts
import PanelBus.Proofs.Line.Search
/-!
# Where the octets go

Octets leave the buffer of an assembler in five ways: in a frame, skipped in search of one, pushed
out when the buffer is full, and cleared by silence or by a reset.  A run is accounted for by the
pieces that have left the buffer, oldest first; with what is pending they are the stream received.
-/

namespace PanelBus.Assembler

/-- How octets leave the buffer. -/
inductive Fate where
  | framed
  | skipped
  | overflowed
  /-- By a silence that is too long, or by a reset. -/
  | cleared
deriving DecidableEq, Repr

/-- Octets that leave the buffer together. -/
structure Piece where
  fate : Fate
  octets : Bytes
deriving DecidableEq, Repr

namespace Piece

def frame? (piece : Piece) : Option Bytes :=
  if piece.fate = .framed then some piece.octets else none

/-- The number of octets that leave in one of the ways. -/
def amount (fate : Fate) (pieces : List Piece) : Nat :=
  ((pieces.filter fun piece => piece.fate = fate).map fun piece => piece.octets.length).sum

@[simp] theorem amount_nil (fate : Fate) : amount fate [] = 0 := rfl

theorem amount_cons (fate : Fate) (piece : Piece) (rest : List Piece) :
    amount fate (piece :: rest) =
      (if piece.fate = fate then piece.octets.length else 0) + amount fate rest := by
  by_cases hfate : piece.fate = fate
  · simp [amount, hfate]
  · simp [amount, hfate]

@[simp] theorem amount_append (fate : Fate) (pieces more : List Piece) :
    amount fate (pieces ++ more) = amount fate pieces + amount fate more := by
  simp [amount]

/-- The piece that a frame is, if there is one. -/
def ofFrame (frame? : Option Bytes) : List Piece := frame?.toList.map (Piece.mk .framed)

@[simp] theorem flatMap_ofFrame (frame? : Option Bytes) :
    (ofFrame frame?).flatMap octets = frame?.getD [] := by
  cases frame? with
  | none => rfl
  | some frame => simp [ofFrame]

@[simp] theorem filterMap_ofFrame (frame? : Option Bytes) :
    (ofFrame frame?).filterMap Piece.frame? = frame?.toList := by
  cases frame? with
  | none => rfl
  | some frame => rfl

@[simp] theorem amount_ofFrame {fate : Fate} (hfate : fate ≠ .framed) (frame? : Option Bytes) :
    amount fate (ofFrame frame?) = 0 := by
  cases frame? with
  | none => rfl
  | some frame => simp [ofFrame, amount_cons, hfate.symm]

/-- Every octet leaves in exactly one way. -/
theorem length_octets_eq (pieces : List Piece) :
    (pieces.flatMap octets).length =
      (pieces.filterMap frame?).flatten.length + amount .skipped pieces +
        amount .overflowed pieces + amount .cleared pieces := by
  induction pieces with
  | nil => rfl
  | cons piece rest ih =>
      obtain ⟨fate, octets⟩ := piece
      rw [List.flatMap_cons, List.length_append, ih]
      cases fate
      all_goals
        simp only [amount_cons, frame?, List.filterMap_cons, List.flatten_cons, List.length_append,
          reduceCtorEq, ↓reduceIte]
        omega

end Piece

/-- The octets received by the steps. -/
def received (steps : List Step) : Bytes := octetsOf (steps.filterMap Step.chunk?)

/-- The octets that a step clears out of the buffer: a reset all, and octets that arrive after a
silence that is too long all those before them. -/
def cleared (assembler : Assembler) : Step → Bytes
  | .chunk chunk =>
    if !chunk.octets.isEmpty && assembler.expired chunk.time then assembler.pending else []
  | .reset => assembler.pending

/-- The number of octets that the steps clear out of the buffer. -/
def clearedBy (assembler : Assembler) : List Step → Nat
  | [] => 0
  | s :: rest => (assembler.cleared s).length + (assembler.step s).2.clearedBy rest

/-- The pieces account for what an assembler has made of the octets it received: for the frames, for
the counters and for the number of octets cleared. -/
structure Accounts (assembler : Assembler) (octets : Bytes) (result : List Bytes × Assembler)
    (cleared : Nat) (pieces : List Piece) : Prop where
  stream : assembler.pending ++ octets = pieces.flatMap Piece.octets ++ result.2.pending
  frames : pieces.filterMap Piece.frame? = result.1
  counted : result.2.stats.frames = assembler.stats.frames + result.1.length
  skipped : result.2.stats.resyncDrops =
    assembler.stats.resyncDrops + Piece.amount .skipped pieces
  overflowed : result.2.stats.overflowDrops =
    assembler.stats.overflowDrops + Piece.amount .overflowed pieces
  cleared : Piece.amount .cleared pieces = cleared

theorem accounts_nothing (assembler : Assembler) :
    assembler.Accounts [] ([], assembler) 0 [] where
  stream := List.append_nil _
  frames := rfl
  counted := rfl
  skipped := rfl
  overflowed := rfl
  cleared := rfl

theorem Accounts.append {assembler : Assembler} {octets more : Bytes}
    {first next : List Bytes × Assembler} {cleared alsoCleared : Nat} {pieces others : List Piece}
    (h : assembler.Accounts octets first cleared pieces)
    (hnext : first.2.Accounts more next alsoCleared others) :
    assembler.Accounts (octets ++ more) (first.1 ++ next.1, next.2) (cleared + alsoCleared)
      (pieces ++ others) where
  stream := by
    rw [← List.append_assoc, h.stream, List.append_assoc, hnext.stream, List.flatMap_append,
      List.append_assoc]
  frames := by rw [List.filterMap_append, h.frames, hnext.frames]
  counted := by
    rw [hnext.counted, h.counted, List.length_append]
    omega
  skipped := by
    rw [hnext.skipped, h.skipped, Piece.amount_append]
    omega
  overflowed := by
    rw [hnext.overflowed, h.overflowed, Piece.amount_append]
    omega
  cleared := by rw [Piece.amount_append, h.cleared, hnext.cleared]

/-! ## One octet -/

/-- An octet makes the assembler skip some octets, give a frame or none, and drop what is too much;
the pieces leave in this order. -/
theorem accounts_feed (assembler : Assembler) (b : UInt8) :
    ∃ pieces, assembler.Accounts [b] ((assembler.feed b).1.toList, (assembler.feed b).2) 0
      pieces := by
  obtain ⟨skipped, hsplit, hdrops⟩ := assembler.rx.search_split (assembler.pending ++ [b])
  rw [feed_eq]
  generalize assembler.rx.search (assembler.pending ++ [b]) = search at hsplit hdrops ⊢
  dsimp only
  have hexcess : (search.rest.take (search.rest.length - assembler.buffer.capacity)).length =
      search.rest.length - assembler.buffer.capacity := by
    rw [List.length_take]
    omega
  refine ⟨⟨.skipped, skipped⟩ :: (Piece.ofFrame search.frame? ++
    [⟨.overflowed, search.rest.take (search.rest.length - assembler.buffer.capacity)⟩]),
    ?_, ?_, rfl, ?_, ?_, ?_⟩
  · rw [hsplit]
    simp [pending]
  · simp [Piece.frame?]
  · simp [Piece.amount_cons, Search.stats, hdrops]
  · simp only [Piece.amount_cons, Piece.amount_append, Search.stats,
      AssemblerStats.overflowDrops_add, hexcess]
    simp
  · simp [Piece.amount_cons]

theorem accounts_feedAll (assembler : Assembler) (octets : Bytes) :
    ∃ pieces, assembler.Accounts octets (assembler.feedAll octets) 0 pieces := by
  induction octets generalizing assembler with
  | nil => exact ⟨[], assembler.accounts_nothing⟩
  | cons b rest ih =>
      obtain ⟨pieces, hfeed⟩ := assembler.accounts_feed b
      obtain ⟨others, hrest⟩ := ih (assembler.feed b).2
      exact ⟨pieces ++ others, hfeed.append hrest⟩

/-! ## One step -/

/-- All pending octets go at once, and nothing but the counter of silences may change. -/
theorem accounts_clear {assembler next : Assembler} (hpending : next.pending = [])
    (hframes : next.stats.frames = assembler.stats.frames)
    (hskipped : next.stats.resyncDrops = assembler.stats.resyncDrops)
    (hoverflowed : next.stats.overflowDrops = assembler.stats.overflowDrops) :
    assembler.Accounts [] ([], next) assembler.pending.length [⟨.cleared, assembler.pending⟩] where
  stream := by
    rw [hpending]
    simp
  frames := rfl
  counted := hframes
  skipped := hskipped
  overflowed := hoverflowed
  cleared := rfl

theorem accounts_touch (assembler : Assembler) (now : Nat) :
    ∃ pieces, assembler.Accounts [] ([], assembler.touch now)
      (if assembler.expired now then assembler.pending else []).length pieces := by
  by_cases hexpired : assembler.expired now
  · have hstats := stats_touch_of_expired hexpired
    refine ⟨[⟨.cleared, assembler.pending⟩], ?_⟩
    rw [if_pos hexpired]
    apply accounts_clear (pending_touch_of_expired hexpired)
    · rw [hstats]
      rfl
    · rw [hstats]
      rfl
    · rw [hstats]
      rfl
  · have htouch : assembler.touch now = { assembler with lastRx? := some now } := by
      unfold touch
      rw [if_neg (by simp [hexpired])]
    refine ⟨[], ?_⟩
    rw [if_neg hexpired, htouch]
    exact ⟨List.append_nil _, rfl, rfl, rfl, rfl, rfl⟩

theorem accounts_step (assembler : Assembler) (s : Step) :
    ∃ pieces, assembler.Accounts (received [s]) (assembler.step s) (assembler.cleared s).length
      pieces := by
  cases s with
  | reset =>
      have hreset : assembler.reset.pending = [] := rfl
      exact ⟨_, accounts_clear hreset rfl rfl rfl⟩
  | chunk chunk =>
      have hreceived : received [.chunk chunk] = chunk.octets := List.append_nil _
      rw [hreceived]
      by_cases hempty : chunk.octets = []
      · have hcleared : assembler.cleared (.chunk chunk) = [] := by simp [cleared, hempty]
        refine ⟨[], ?_⟩
        rw [step, hcleared, hempty, push_nil]
        exact assembler.accounts_nothing
      · have hcleared : assembler.cleared (.chunk chunk) =
            if assembler.expired chunk.time then assembler.pending else [] := by
          simp [cleared, hempty]
        obtain ⟨pieces, htouch⟩ := assembler.accounts_touch chunk.time
        obtain ⟨others, hfeed⟩ := (assembler.touch chunk.time).accounts_feedAll chunk.octets
        refine ⟨pieces ++ others, ?_⟩
        rw [step, hcleared, push_of_ne_nil _ hempty]
        exact htouch.append hfeed

/-! ## All runs -/

theorem received_cons (s : Step) (rest : List Step) :
    received (s :: rest) = received [s] ++ received rest := by
  cases s with
  | reset => rfl
  | chunk chunk => simp [received, Step.chunk?]

theorem accounts_run (assembler : Assembler) (steps : List Step) :
    ∃ pieces, assembler.Accounts (received steps) (assembler.run steps)
      (assembler.clearedBy steps) pieces := by
  induction steps generalizing assembler with
  | nil => exact ⟨[], assembler.accounts_nothing⟩
  | cons s rest ih =>
      obtain ⟨pieces, hstep⟩ := assembler.accounts_step s
      obtain ⟨others, hrest⟩ := ih (assembler.step s).2
      refine ⟨pieces ++ others, ?_⟩
      rw [run_cons, received_cons]
      exact hstep.append hrest

/-- **Every octet is accounted for once.**  Whatever the format, the stream that a run receives is
cut into pieces, each of which has left the buffer in one way, and what is pending behind them.  The
frames are the framed pieces in order, the counters are the amounts of the others, and so the
octets received are those of the frames, those dropped, those cleared and those pending. -/
theorem run_accounted (rx : RxFormat) (steps : List Step) :
    let result := (ofFormat rx).run steps
    let stats := result.2.stats
    let clearedOctets := (ofFormat rx).clearedBy steps
    (∃ pieces : List Piece,
      received steps = pieces.flatMap Piece.octets ++ result.2.pending ∧
        pieces.filterMap Piece.frame? = result.1 ∧
        Piece.amount .skipped pieces = stats.resyncDrops ∧
        Piece.amount .overflowed pieces = stats.overflowDrops ∧
        Piece.amount .cleared pieces = clearedOctets) ∧
    (received steps).length =
      result.1.flatten.length + stats.resyncDrops + stats.overflowDrops + clearedOctets +
        result.2.pending.length ∧
    stats.frames = result.1.length := by
  intro result stats clearedOctets
  obtain ⟨pieces, haccounts⟩ := (ofFormat rx).accounts_run steps
  have hstream : received steps = pieces.flatMap Piece.octets ++ result.2.pending :=
    haccounts.stream
  have hframes : pieces.filterMap Piece.frame? = result.1 := haccounts.frames
  have hskipped : Piece.amount .skipped pieces = stats.resyncDrops :=
    (haccounts.skipped.trans (Nat.zero_add _)).symm
  have hoverflowed : Piece.amount .overflowed pieces = stats.overflowDrops :=
    (haccounts.overflowed.trans (Nat.zero_add _)).symm
  have hcleared : Piece.amount .cleared pieces = clearedOctets := haccounts.cleared
  refine ⟨⟨pieces, hstream, hframes, hskipped, hoverflowed, hcleared⟩, ?_, ?_⟩
  · calc (received steps).length
        = (pieces.flatMap Piece.octets).length + result.2.pending.length := by
          rw [hstream, List.length_append]
      _ = result.1.flatten.length + stats.resyncDrops + stats.overflowDrops + clearedOctets +
            result.2.pending.length := by
          rw [Piece.length_octets_eq, hframes, hskipped, hoverflowed, hcleared]
  · exact haccounts.counted.trans (Nat.zero_add _)

-- A skipped octet, two frames, an octet that silence clears and one that a reset clears.
example :
    let steps : List Step :=
      [.chunk ⟨[0x00, 0xF7, 0x01, 0xF8, 0xF7], 0⟩, .chunk ⟨[0xF7, 0x02, 0xF9, 0xF7], 100⟩, .reset]
    ((ofFormat Line.sample.rx).run steps).1 = [[0xF7, 0x01, 0xF8], [0xF7, 0x02, 0xF9]] ∧
      ((ofFormat Line.sample.rx).run steps).2.stats.resyncDrops = 1 ∧
      (ofFormat Line.sample.rx).clearedBy steps = 2 := by
  decide

end PanelBus.Assembler
