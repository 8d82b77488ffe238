import PanelBus.Proofs.Line.Run
import Mathlib.Data.List.SplitBy
import Mathlib.Tactic.Abel
/-!
# Bursts

Resets cut a run into sessions, and silences that are too long cut the chunks of a session into
bursts.  Nothing crosses such a cut except the counters: the run gives what new assemblers give that
receive one burst each, in one piece.
-/

namespace PanelBus.Assembler

/-! ## Where a run is cut -/

/-- Whether `d` arrives soon enough behind `c` to be put together with it. -/
def Chunk.joins (timeout? : Option Nat) (c d : Chunk) : Bool :=
  match timeout? with
  | none => true
  | some timeout => d.time - c.time ≤ timeout

/-- The chunks that hold octets. -/
def carrying (chunks : List Chunk) : List Chunk := chunks.filter fun chunk => chunk.octets ≠ []

def Step.isReset : Step → Bool
  | .chunk _ => false
  | .reset => true

def Step.chunk? : Step → Option Chunk
  | .chunk c => some c
  | .reset => none

/-- The chunks with octets between the resets. -/
def sessions (steps : List Step) : List (List Chunk) :=
  (steps.splitOnP Step.isReset).map fun part => carrying (part.filterMap Step.chunk?)

/-- The chunks of a session, cut at each silence longer than the timeout. -/
def bursts (timeout? : Option Nat) (session : List Chunk) : List (List Chunk) :=
  if session = [] then [[]] else session.splitBy (Chunk.joins timeout?)

theorem mem_carrying {c : Chunk} {chunks : List Chunk} (h : c ∈ carrying chunks) :
    c.octets ≠ [] := by
  simpa using (List.mem_filter.mp h).2

theorem octetsOf_carrying (chunks : List Chunk) : octetsOf (carrying chunks) = octetsOf chunks := by
  induction chunks with
  | nil => rfl
  | cons c rest ih =>
      by_cases hc : c.octets = []
      · simpa [carrying, hc] using ih
      · simpa [carrying, hc] using ih

theorem run_carrying (assembler : Assembler) (chunks : List Chunk) :
    assembler.run ((carrying chunks).map .chunk) = assembler.run (chunks.map .chunk) := by
  induction chunks generalizing assembler with
  | nil => rfl
  | cons c rest ih =>
      by_cases hc : c.octets = []
      · rw [run_chunks_cons, hc, push_nil, ← ih]
        simp [carrying, hc]
      · have hcarrying : carrying (c :: rest) = c :: carrying rest := by simp [carrying, hc]
        rw [hcarrying, run_chunks_cons, run_chunks_cons, ih]

/-! ## One burst -/

theorem expired_of_lastRx {assembler : Assembler} {c : Chunk}
    (h : assembler.lastRx? = some c.time) (d : Chunk) :
    assembler.expired d.time = !c.joins assembler.rx.timeout? d := by
  unfold expired Chunk.joins
  rw [h]
  cases assembler.rx.timeout? with
  | none => rfl
  | some timeout =>
      rw [← decide_not]
      exact decide_eq_decide.mpr Nat.not_le.symm

theorem touch_of_joins {assembler : Assembler} {c d : Chunk}
    (h : assembler.lastRx? = some c.time) (hjoins : c.joins assembler.rx.timeout? d) :
    assembler.touch d.time = { assembler with lastRx? := some d.time } := by
  unfold touch
  rw [expired_of_lastRx h, hjoins]
  rfl

/-- Chunks that join are received as one. -/
theorem run_joined {assembler : Assembler} {rx : RxFormat} (huses : assembler.Uses rx)
    {c : Chunk} {chunks : List Chunk} (hchain : (c :: chunks).IsChain (Chunk.joins rx.timeout? · ·))
    (hcarrying : ∀ d ∈ chunks, d.octets ≠ []) (stats : AssemblerStats) :
    ∃ last ∈ (c :: chunks).getLast?,
      (assembler.shift stats (some c.time)).run (chunks.map .chunk) =
        ((assembler.feedAll (octetsOf chunks)).1,
          (assembler.feedAll (octetsOf chunks)).2.shift stats (some last.time)) := by
  induction chunks generalizing assembler c with
  | nil => exact ⟨c, rfl, rfl⟩
  | cons d rest ih =>
      obtain ⟨hjoins, hrest⟩ := List.isChain_cons_cons.mp hchain
      have hd : d.octets ≠ [] := hcarrying d (by simp)
      have htouch : (assembler.shift stats (some c.time)).touch d.time =
          assembler.shift stats (some d.time) := by
        rw [touch_of_joins rfl (by simpa [huses.rx_eq] using hjoins)]
        rfl
      have hpush : (assembler.shift stats (some c.time)).push d.octets d.time =
          ((assembler.feedAll d.octets).1,
            (assembler.feedAll d.octets).2.shift stats (some d.time)) := by
        rw [push_of_ne_nil _ hd, htouch, feedAll_shift]
      obtain ⟨last, hlast, hrun⟩ := ih (huses.feedAll d.octets) hrest
        (fun e he => hcarrying e (by simp [he]))
      refine ⟨last, by simpa using hlast, ?_⟩
      rw [run_chunks_cons, hpush, hrun, octetsOf_cons, feedAll_append]

/-- What a new assembler makes of the octets of a burst. -/
def alone (rx : RxFormat) (burst : List Chunk) : List Bytes × Assembler :=
  (ofFormat rx).feedAll (octetsOf burst)

theorem run_burst {assembler : Assembler} {rx : RxFormat} {stats : AssemblerStats} {c : Chunk}
    {chunks : List Chunk}
    (hstart : assembler.touch c.time = (ofFormat rx).shift stats (some c.time))
    (hchain : (c :: chunks).IsChain (Chunk.joins rx.timeout? · ·))
    (hcarrying : ∀ d ∈ c :: chunks, d.octets ≠ []) :
    ∃ last ∈ (c :: chunks).getLast?,
      assembler.run ((c :: chunks).map .chunk) =
        ((alone rx (c :: chunks)).1, (alone rx (c :: chunks)).2.shift stats (some last.time)) := by
  have hpush : assembler.push c.octets c.time =
      (((ofFormat rx).feedAll c.octets).1,
        ((ofFormat rx).feedAll c.octets).2.shift stats (some c.time)) := by
    rw [push_of_ne_nil _ (hcarrying c (by simp)), hstart, feedAll_shift]
  obtain ⟨last, hlast, hrun⟩ := run_joined ((uses_ofFormat rx).feedAll c.octets) hchain
    (fun d hd => hcarrying d (by simp [hd])) stats
  refine ⟨last, hlast, ?_⟩
  rw [run_chunks_cons, hpush, hrun, alone, octetsOf_cons, feedAll_append]

/-- No silence between the chunks is too long. -/
def Steady (timeout? : Option Nat) (chunks : List Chunk) : Prop :=
  (carrying chunks).IsChain (Chunk.joins timeout? · ·)

/-- With an empty buffer at the start, steady chunks are received as one. -/
theorem run_steady {assembler : Assembler} {rx : RxFormat} (huses : assembler.Uses rx)
    (hempty : assembler.pending = []) {chunks : List Chunk} (hsteady : Steady rx.timeout? chunks) :
    ∃ lastRx?, assembler.run (chunks.map .chunk) =
      (((ofFormat rx).feedAll (octetsOf chunks)).1,
        ((ofFormat rx).feedAll (octetsOf chunks)).2.shift assembler.stats lastRx?) := by
  rw [← run_carrying, ← octetsOf_carrying]
  have hcarrying : ∀ d ∈ carrying chunks, d.octets ≠ [] := fun d => mem_carrying
  unfold Steady at hsteady
  cases h : carrying chunks with
  | nil =>
      refine ⟨assembler.lastRx?, ?_⟩
      exact congrArg (Prod.mk []) (huses.eq_shift hempty)
  | cons c rest =>
      rw [h] at hsteady hcarrying
      have hstart : assembler.touch c.time = (ofFormat rx).shift assembler.stats (some c.time) := by
        rw [huses.eq_shift hempty, touch_ofFormat]
        rfl
      obtain ⟨last, -, hrun⟩ := run_burst hstart hsteady hcarrying
      exact ⟨some last.time, hrun⟩

/-! ## Silence -/

/-- What a silence that is too long adds to the counters. -/
def silence (pending : Bytes) : AssemblerStats := { timeouts := if pending = [] then 0 else 1 }

theorem lastRx?_touch (assembler : Assembler) (now : Nat) :
    (assembler.touch now).lastRx? = some now := by
  unfold touch
  split
  · rfl
  · rfl

theorem pending_touch_of_expired {assembler : Assembler} {now : Nat}
    (h : assembler.expired now) : (assembler.touch now).pending = [] := by
  by_cases hempty : assembler.pending = []
  · unfold touch
    rw [if_neg (by simpa [h, pending] using hempty)]
    exact hempty
  · unfold touch
    rw [if_pos (by simpa [h, pending] using hempty)]
    rfl

theorem stats_touch_of_expired {assembler : Assembler} {now : Nat} (h : assembler.expired now) :
    (assembler.touch now).stats = assembler.stats + silence assembler.pending := by
  by_cases hempty : assembler.pending = []
  · unfold touch
    rw [if_neg (by simpa [h, pending] using hempty)]
    simp only [silence, hempty, if_true]
    exact (add_zero assembler.stats).symm
  · unfold touch
    rw [if_pos (by simpa [h, pending] using hempty)]
    ext <;> simp [silence, hempty]

theorem touch_of_silence {assembler : Assembler} {rx : RxFormat} (huses : assembler.Uses rx)
    {c d : Chunk} (hlast : assembler.lastRx? = some c.time)
    (hsilence : c.joins rx.timeout? d = false) :
    assembler.touch d.time =
      (ofFormat rx).shift (assembler.stats + silence assembler.pending) (some d.time) := by
  have hexpired : assembler.expired d.time := by
    rw [expired_of_lastRx hlast, huses.rx_eq, hsilence]
    rfl
  rw [(huses.touch d.time).eq_shift (pending_touch_of_expired hexpired),
    stats_touch_of_expired hexpired, lastRx?_touch]

/-! ## All bursts -/

/-- `result` sums up what new assemblers make of the bursts, with `stats` counted before, when the
bursts of `silenced` were ended by silence. -/
structure Sums (rx : RxFormat) (stats : AssemblerStats) (bursts silenced : List (List Chunk))
    (result : List Bytes × Assembler) : Prop where
  uses : result.2.Uses rx
  frames : result.1 = bursts.flatMap fun burst => (alone rx burst).1
  stats : result.2.stats = stats + (bursts.map fun burst => (alone rx burst).2.stats).sum +
    (silenced.map fun burst => silence (alone rx burst).2.pending).sum
  pending : ∃ last ∈ bursts.getLast?, result.2.pending = (alone rx last).2.pending

theorem Sums.append {rx : RxFormat} {stats : AssemblerStats}
    {bursts silenced more moreSilenced : List (List Chunk)} {result next : List Bytes × Assembler}
    (h : Sums rx stats bursts silenced result) (between : List (List Chunk))
    (hmore : Sums rx
      (result.2.stats + (between.map fun burst => silence (alone rx burst).2.pending).sum)
      more moreSilenced next) :
    Sums rx stats (bursts ++ more) (silenced ++ between ++ moreSilenced)
      (result.1 ++ next.1, next.2) where
  uses := hmore.uses
  frames := by
    rw [h.frames, hmore.frames, List.flatMap_append]
  stats := by
    rw [hmore.stats, h.stats]
    simp only [List.map_append, List.sum_append]
    abel
  pending := by
    obtain ⟨last, hlast, hpending⟩ := hmore.pending
    exact ⟨last, by simp [List.getLast?_append, Option.mem_def.mp hlast], hpending⟩

theorem sums_alone (rx : RxFormat) (stats : AssemblerStats) (burst : List Chunk)
    (lastRx? : Option Nat) :
    Sums rx stats [burst] [] ((alone rx burst).1, (alone rx burst).2.shift stats lastRx?) where
  uses := ((uses_ofFormat rx).feedAll _).shift _ _
  frames := by simp
  stats := by simp
  pending := ⟨burst, rfl, rfl⟩

/-- Bursts that follow each other in silence. -/
theorem sums_bursts {assembler : Assembler} {rx : RxFormat} {stats : AssemblerStats}
    {groups : List (List Chunk)} (hne : groups ≠ []) (hnil : [] ∉ groups)
    (hstart : ∀ c ∈ groups.flatten.head?,
      assembler.touch c.time = (ofFormat rx).shift stats (some c.time))
    (hchains : ∀ group ∈ groups, group.IsChain (Chunk.joins rx.timeout? · ·))
    (hgaps : groups.IsChain fun a b =>
      ∃ ha hb, Chunk.joins rx.timeout? (a.getLast ha) (b.head hb) = false)
    (hcarrying : ∀ group ∈ groups, ∀ d ∈ group, d.octets ≠ []) :
    Sums rx stats groups groups.dropLast (assembler.run (groups.flatten.map .chunk)) := by
  induction groups generalizing assembler stats with
  | nil => exact absurd rfl hne
  | cons group rest ih =>
      obtain ⟨c, chunks, rfl⟩ : ∃ c chunks, group = c :: chunks :=
        List.exists_cons_of_ne_nil fun h => hnil (by simp [h])
      obtain ⟨last, hlast, hrun⟩ := run_burst (hstart c rfl)
        (hchains _ List.mem_cons_self) (hcarrying _ List.mem_cons_self)
      have hsums := sums_alone rx stats (c :: chunks) (some last.time)
      rw [List.flatten_cons, List.map_append, run_append, hrun]
      cases rest with
      | nil => simpa using hsums
      | cons next more =>
          obtain ⟨⟨ha, hb, hgap⟩, hgaps'⟩ := List.isChain_cons_cons.mp hgaps
          have hnext : ∀ d ∈ (next :: more).flatten.head?,
              ((alone rx (c :: chunks)).2.shift stats (some last.time)).touch d.time =
                (ofFormat rx).shift
                  (stats + (alone rx (c :: chunks)).2.stats +
                    silence (alone rx (c :: chunks)).2.pending) (some d.time) := by
            intro d hd
            have hlast' : (c :: chunks).getLast ha = last := by
              simpa [List.getLast?_eq_some_getLast ha] using hlast
            have hd' : next.head hb = d := by
              obtain ⟨e, tail, rfl⟩ := List.exists_cons_of_ne_nil hb
              simpa using hd
            rw [hlast', hd'] at hgap
            exact touch_of_silence hsums.uses rfl hgap
          have hmore := ih (by simp) (by simp_all) hnext (fun g hg => hchains g (by simp [hg]))
            hgaps' (fun g hg => hcarrying g (by simp [hg]))
          have happend := hsums.append [c :: chunks] (by simpa using hmore)
          simpa using happend

/-! ## All sessions -/

theorem sums_session (rx : RxFormat) (stats : AssemblerStats) {session : List Chunk}
    (hcarrying : ∀ d ∈ session, d.octets ≠ []) :
    Sums rx stats (bursts rx.timeout? session) (bursts rx.timeout? session).dropLast
      (((ofFormat rx).shift stats none).run (session.map .chunk)) := by
  by_cases hsession : session = []
  · subst hsession
    exact sums_alone rx stats [] none
  · have hflatten := List.flatten_splitBy (Chunk.joins rx.timeout?) session
    have hgroups := sums_bursts (List.splitBy_ne_nil.mpr hsession) (List.nil_notMem_splitBy _ _)
      (fun c _ => touch_ofFormat rx stats none c.time) (fun _ => List.isChain_of_mem_splitBy)
      (List.isChain_getLast_head_splitBy (Chunk.joins rx.timeout?) session)
      (fun group hgroup d hd => hcarrying d (by
        rw [← hflatten]
        exact List.mem_flatten_of_mem hgroup hd))
    rw [hflatten] at hgroups
    simpa [bursts, hsession] using hgroups

theorem steps_cases (steps : List Step) :
    ∃ chunks : List Chunk, steps = chunks.map .chunk ∨
      ∃ rest, steps = chunks.map .chunk ++ .reset :: rest := by
  induction steps with
  | nil => exact ⟨[], .inl rfl⟩
  | cons s rest ih =>
      cases s with
      | reset => exact ⟨[], .inr ⟨rest, rfl⟩⟩
      | chunk c =>
          obtain ⟨chunks, rfl | ⟨more, rfl⟩⟩ := ih
          · exact ⟨c :: chunks, .inl rfl⟩
          · exact ⟨c :: chunks, .inr ⟨more, rfl⟩⟩

theorem sessions_chunks (chunks : List Chunk) :
    sessions (chunks.map .chunk) = [carrying chunks] := by
  rw [sessions, List.splitOnP_eq_singleton (by simp [Step.isReset])]
  simp [List.filterMap_map, Function.comp_def, Step.chunk?]

theorem sessions_reset (chunks : List Chunk) (rest : List Step) :
    sessions (chunks.map .chunk ++ .reset :: rest) = carrying chunks :: sessions rest := by
  rw [sessions, List.splitOnP_append_cons _ _ rfl, List.map_append]
  have hchunks := sessions_chunks chunks
  rw [sessions] at hchunks
  rw [hchunks]
  rfl

/-- The bursts of all sessions of a run. -/
def allBursts (timeout? : Option Nat) (steps : List Step) : List (List Chunk) :=
  (sessions steps).flatMap (bursts timeout?)

/-- The bursts of a run that were ended by silence: all but the last one of each session. -/
def silencedBursts (timeout? : Option Nat) (steps : List Step) : List (List Chunk) :=
  (sessions steps).flatMap fun session => (bursts timeout? session).dropLast

-- A chunk without octets neither joins nor parts the others, and a clock may go backwards.
example :
    (allBursts (some 50) [.chunk ⟨[1], 0⟩, .chunk ⟨[], 60⟩, .chunk ⟨[2], 50⟩, .chunk ⟨[3], 101⟩,
      .reset, .chunk ⟨[4], 7⟩, .chunk ⟨[5], 3⟩]).map octetsOf = [[1, 2], [3], [4, 5]] := by
  decide

theorem sums_run (rx : RxFormat) (stats : AssemblerStats) (steps : List Step) :
    Sums rx stats (allBursts rx.timeout? steps) (silencedBursts rx.timeout? steps)
      (((ofFormat rx).shift stats none).run steps) := by
  induction hlength : steps.length using Nat.strongRecOn generalizing steps stats with
  | _ n ih =>
    obtain ⟨chunks, hsteps⟩ := steps_cases steps
    have hsession := sums_session rx stats fun d (hd : d ∈ carrying chunks) => mem_carrying hd
    rw [run_carrying] at hsession
    rcases hsteps with rfl | ⟨rest, rfl⟩
    · simpa [allBursts, silencedBursts, sessions_chunks] using hsession
    · have hrest := ih rest.length (by simp at hlength; omega)
        (((ofFormat rx).shift stats none).run (chunks.map .chunk)).2.stats rest rfl
      rw [← hsession.uses.reset_eq] at hrest
      have happend := hsession.append [] (by simpa using hrest)
      rw [run_append, run_cons]
      simpa [allBursts, silencedBursts, sessions_reset, step] using happend

theorem sums_ofFormat (rx : RxFormat) (steps : List Step) :
    Sums rx 0 (allBursts rx.timeout? steps) (silencedBursts rx.timeout? steps)
      ((ofFormat rx).run steps) := by
  have hsums := sums_run rx 0 steps
  rwa [show (ofFormat rx).shift 0 none = ofFormat rx from shift_zero (ofFormat rx)] at hsums

/-- The burst that a run ends with. -/
def lastBurst (timeout? : Option Nat) (steps : List Step) : List Chunk :=
  (allBursts timeout? steps).getLastD []

theorem pending_run (rx : RxFormat) (steps : List Step) :
    ((ofFormat rx).run steps).2.pending = (alone rx (lastBurst rx.timeout? steps)).2.pending := by
  obtain ⟨last, hlast, hpending⟩ := (sums_ofFormat rx steps).pending
  rw [hpending, lastBurst, List.getLastD_eq_getLast?, Option.mem_def.mp hlast]
  rfl

theorem sum_silence (rx : RxFormat) (silenced : List (List Chunk)) :
    (silenced.map fun burst => silence (alone rx burst).2.pending).sum =
      { timeouts := silenced.countP fun burst => (alone rx burst).2.pending ≠ [] } := by
  induction silenced with
  | nil => rfl
  | cons burst rest ih =>
      rw [List.map_cons, List.sum_cons, ih, List.countP_cons]
      by_cases hpending : (alone rx burst).2.pending = []
      · ext <;> simp [silence, hpending]
      · ext <;> simp [silence, hpending, Nat.add_comm]

theorem timeouts_sum_alone (rx : RxFormat) (all : List (List Chunk)) :
    (all.map fun burst => (alone rx burst).2.stats).sum.timeouts = 0 := by
  induction all with
  | nil => rfl
  | cons burst rest ih =>
      rw [List.map_cons, List.sum_cons, AssemblerStats.timeouts_add, ih]
      exact timeouts_feedAll (ofFormat rx) (octetsOf burst)

/-- **A run is the sum of its bursts.**  Whatever the format, the frames of a run are those that new
assemblers give for its bursts, each received in one push; what is pending is what the last burst
leaves; the counters add up, and a timeout is counted where a silence found octets pending.  How a
burst is cut into chunks does not show. -/
theorem run_eq_bursts (rx : RxFormat) (steps : List Step) (now : Nat) :
    let whole := fun burst : List Chunk => (ofFormat rx).push (octetsOf burst) now
    let result := (ofFormat rx).run steps
    result.1 = (allBursts rx.timeout? steps).flatMap (fun burst => (whole burst).1) ∧
    (∃ last ∈ (allBursts rx.timeout? steps).getLast?,
      result.2.pending = (whole last).2.pending) ∧
    result.2.stats =
      { ((allBursts rx.timeout? steps).map fun burst => (whole burst).2.stats).sum with
        timeouts := (silencedBursts rx.timeout? steps).countP fun burst =>
          (whole burst).2.pending ≠ [] } := by
  intro whole result
  have hframes : ∀ burst, (whole burst).1 = (alone rx burst).1 := by
    intro burst
    obtain ⟨lastRx?, h⟩ := push_ofFormat rx (octetsOf burst) now
    simp only [whole, h, alone]
  have hpending : ∀ burst, (whole burst).2.pending = (alone rx burst).2.pending := by
    intro burst
    obtain ⟨lastRx?, h⟩ := push_ofFormat rx (octetsOf burst) now
    simp only [whole, h, alone, pending_shift]
  have hstats : ∀ burst, (whole burst).2.stats = (alone rx burst).2.stats := by
    intro burst
    obtain ⟨lastRx?, h⟩ := push_ofFormat rx (octetsOf burst) now
    simp only [whole, h, alone, stats_shift, zero_add]
  have hsums := sums_ofFormat rx steps
  simp only [hframes, hpending, hstats]
  refine ⟨hsums.frames, hsums.pending, ?_⟩
  rw [hsums.stats, sum_silence, zero_add]
  ext <;> simp [timeouts_sum_alone]

end PanelBus.Assembler
