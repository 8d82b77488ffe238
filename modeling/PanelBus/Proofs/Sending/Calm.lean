import PanelBus.Proofs.Sending.Owed
import PanelBus.Proofs.Sending.Turns
/-!
# Queues with nothing to read that matters

What a queue does between confirmations does not depend on the events that it passes over.  Two
queues that are alike but for what they have read, neither of which has a confirmation to read, go
on alike.  It matters as little how their moves fall into turns, as long as no turn is used up.
-/

namespace PanelBus.CommandQueue

/-- A confirmation is there to be read. -/
def Pressed (bus : EventBus) (queue : CommandQueue) : Prop := ∃ job k, Owes bus queue job k

/-- The queue is told to stop, or has nothing to read that confirms its command. -/
def Calm (bus : EventBus) (queue : CommandQueue) : Prop :=
  queue.stopping = true ∨ ¬Pressed bus queue

/-- The queue without what it has read and what is counted in a turn. -/
def gist (queue : CommandQueue) : CommandQueue :=
  { queue with
    watcher := { queue.watcher with events := ⟨0⟩ }
    signal := { queue.signal with holders := 1 }
    leaving := 0
    heedsHigh := false
    heedsLow := false
    called := false
    spent := 0 }

@[simp] theorem phase_gist (queue : CommandQueue) : queue.gist.phase = queue.phase := rfl

@[simp] theorem high_gist (queue : CommandQueue) : queue.gist.high = queue.high := rfl

@[simp] theorem low_gist (queue : CommandQueue) : queue.gist.low = queue.low := rfl

@[simp] theorem gist_endTurn (queue : CommandQueue) : queue.endTurn.gist = queue.gist := rfl

theorem stopping_gist {queue : CommandQueue} (hheld : queue.signal.holders ≠ 0) :
    queue.gist.stopping = queue.stopping := by
  have hiff : queue.gist.stopping = false ↔ queue.stopping = false := by
    rw [stopping_eq_false_iff, stopping_eq_false_iff]
    exact and_congr_right fun _ => iff_of_true Nat.one_ne_zero hheld
  cases hstopping : queue.stopping with
  | false => exact hiff.2 hstopping
  | true =>
      refine eq_true_of_ne_false fun hquiet => ?_
      rw [hiff.1 hquiet] at hstopping
      cases hstopping

theorem gist_stop (queue : CommandQueue) (current : List Job) :
    (queue.gist.stop current).gist = (queue.stop current).gist := by
  unfold stop
  dsimp only
  rw [foldl_conclude, foldl_conclude]
  rfl

theorem gist_take (queue : CommandQueue) (bus : EventBus) (job : Job) :
    (queue.gist.take .empty job).gist = (queue.take bus job).gist := by
  have hlast : queue.gist.lastTx? = queue.lastTx? := rfl
  unfold take
  dsimp only
  rw [hlast]
  cases queue.lastTx? with
  | none => rfl
  | some last => rfl

theorem gist_elapse (queue : CommandQueue) (sending : Sending) :
    (queue.gist.elapse sending).gist = (queue.elapse sending).gist := by
  unfold elapse
  cases sending.left with
  | zero => rfl
  | succ left => rfl

variable {bus : EventBus} {events : List Event} {queue next : CommandQueue}

theorem not_pressed_of_phase (h : ∀ sending deadline, queue.phase ≠ .waiting sending deadline) :
    ¬Pressed bus queue := by
  rintro ⟨job, k, howes⟩
  obtain ⟨left, deadline, hphase⟩ := howes.phase
  exact h _ _ hphase

/-- What was on the bus before a sending does not confirm it. -/
theorem not_pressed_transmit (hholds : bus.Holds events) (sending : Sending) :
    ¬Pressed bus (queue.transmit bus sending) := by
  rintro ⟨job, k, howes⟩
  have hskipped : bus.skipped bus.subscribe = 0 := by
    unfold EventBus.skipped EventBus.subscribe EventBus.forgotten
    dsimp only
    omega
  have hunread : bus.unread bus.subscribe = [] := by
    rw [hholds.unread_eq hskipped]
    unfold EventBus.subscribe
    dsimp only
    rw [hholds.published, List.drop_length]
  rcases howes.unread with hlagged | ⟨event, hevent, _⟩
  · change 0 < bus.skipped bus.subscribe at hlagged
    omega
  · change event ∈ bus.unread bus.subscribe at hevent
    rw [hunread] at hevent
    cases hevent

/-- Nothing that can be read confirms the command at hand. -/
theorem Calm.ignores (hcalm : Calm bus queue) (hholds : bus.Holds events)
    (hquiet : queue.stopping = false) {sending : Sending} {deadline : Nat}
    (hphase : queue.phase = .waiting sending deadline) {reading : Reading} {behind : Subscription}
    (hnext : bus.next? queue.watcher.events = some (reading, behind)) :
    reading.confirms sending.job.request.deviceId = false ∧ Calm bus (queue.read behind) := by
  have hunpressed : ¬Pressed bus queue := by
    refine hcalm.resolve_left ?_
    rw [hquiet]
    exact Bool.false_ne_true
  have hpressed : ∀ {next : CommandQueue}, next.phase = queue.phase →
      (0 < bus.skipped next.watcher.events ∨ ∃ event ∈ bus.unread next.watcher.events,
        event.confirms sending.job.request.deviceId = true) → Pressed bus next := by
    intro next hsame hunread
    exact ⟨sending.job, sending.sent, ⟨sending.left, deadline, hsame.trans hphase⟩, hunread⟩
  have hkept : bus.skipped queue.watcher.events = 0 :=
    Nat.eq_zero_of_not_pos fun hlagged => hunpressed (hpressed rfl (.inl hlagged))
  cases hunread : bus.unread queue.watcher.events with
  | nil =>
      rw [EventBus.next?, hunread] at hnext
      split at hnext
      · cases hnext
      · split at hnext
        · omega
        · cases hnext
  | cons event rest =>
      obtain ⟨hfound, hafter, hrest⟩ := hholds.next?_of_unread hkept hunread
      rw [hnext] at hfound
      obtain ⟨rfl, rfl⟩ := Prod.mk.inj (Option.some.inj hfound)
      refine ⟨?_, .inr ?_⟩
      · refine eq_false_of_ne_true fun hconfirms => ?_
        refine hunpressed (hpressed rfl (.inr ⟨event, ?_, hconfirms⟩))
        rw [hunread]
        exact List.mem_cons_self
      · rintro ⟨job, k, howes⟩
        refine hunpressed ⟨job, k, howes.phase, .inr ?_⟩
        rcases howes.unread with hlagged | ⟨other, hother, hconfirms⟩
        · change 0 < bus.skipped ⟨_⟩ at hlagged
          omega
        · change other ∈ bus.unread ⟨_⟩ at hother
          rw [hrest] at hother
          rw [hunread]
          exact ⟨other, List.mem_cons_of_mem _ hother, hconfirms⟩

theorem Calm.move (hcalm : Calm bus queue) (hholds : bus.Holds events)
    (hmove : Move bus queue next) : Calm bus next := by
  cases hmove with
  | stop _ _ => exact .inr (not_pressed_of_phase fun _ _ => nofun)
  | pickHigh _ _ _ => exact .inr (not_pressed_of_phase fun _ _ => nofun)
  | pickLow _ _ _ _ => exact .inr (not_pressed_of_phase fun _ _ => nofun)
  | transmit _ _ _ => exact .inr (not_pressed_transmit hholds _)
  | ignore hquiet hphase hnext _ => exact (hcalm.ignores hholds hquiet hphase hnext).2
  | confirm _ _ _ _ => exact .inr (not_pressed_of_phase fun _ _ => nofun)
  | giveUp _ _ _ _ _ => exact .inr (not_pressed_of_phase fun _ _ => nofun)
  | rest _ _ _ _ _ => exact .inr (not_pressed_of_phase fun _ _ => nofun)
  | rise _ _ _ => exact .inr (not_pressed_of_phase fun _ _ => nofun)

/-- What the queue does next is to read on the bus. -/
structure Hearing (bus : EventBus) (queue : CommandQueue) : Prop where
  quiet : queue.stopping = false
  waiting : ∃ sending deadline, queue.phase = .waiting sending deadline
  unread : bus.next? queue.watcher.events ≠ none

theorem Hearing.proceed? (h : Hearing bus queue) : ∃ sending deadline reading behind,
    queue.phase = .waiting sending deadline ∧
      bus.next? queue.watcher.events = some (reading, behind) ∧
      queue.proceed? bus = some (if reading.confirms sending.job.request.deviceId then
        (queue.read behind).finish sending.job (.ok sending.sent) else queue.read behind) := by
  obtain ⟨sending, deadline, hphase⟩ := h.waiting
  obtain ⟨⟨reading, behind⟩, hnext⟩ := Option.ne_none_iff_exists'.1 h.unread
  refine ⟨sending, deadline, reading, behind, hphase, hnext, ?_⟩
  simp only [CommandQueue.proceed?, hphase, h.quiet, Bool.false_eq_true, if_false]
  unfold await?
  rw [hnext]
  rfl

/-- A queue that does not read next does what it would do with nothing on the bus. -/
theorem proceed?_gist (hheld : queue.signal.holders ≠ 0) (hdeaf : ¬Hearing bus queue) :
    (queue.gist.proceed? .empty).map gist = (queue.proceed? bus).map gist := by
  have hsame := stopping_gist hheld
  by_cases hended : queue.phase = .ended
  · simp only [CommandQueue.proceed?, phase_gist, hended]
  cases hstopping : queue.stopping with
  | true =>
      rw [proceed?_of_stopping hstopping hended,
        proceed?_of_stopping (hsame.trans hstopping) hended]
      exact congrArg some (gist_stop queue _)
  | false =>
      rw [hstopping] at hsame
      cases hphase : queue.phase with
      | ended => exact absurd hphase hended
      | idle =>
          simp only [CommandQueue.proceed?, phase_gist, hphase, hsame, hstopping,
            Bool.false_eq_true, if_false, high_gist, low_gist]
          split
          · next job high hhigh => exact congrArg some (gist_take { queue with high } bus job)
          · next job low hhigh hlow =>
            have hempty := gist_take { queue.gist with low, heedsHigh := true } .empty job
            have hbus := gist_take { queue with low, heedsHigh := true } bus job
            exact congrArg some (hempty.symm.trans hbus)
          · rfl
      | pacing sending =>
          simp only [CommandQueue.proceed?, phase_gist, hphase, hsame, hstopping,
            Bool.false_eq_true, if_false]
          change Option.map gist (if queue.ready ≤ queue.now then _ else _) = _
          split <;> rfl
      | waiting sending deadline =>
          have hnothing : bus.next? queue.watcher.events = none := by
            refine Option.eq_none_iff_forall_ne_some.2 ?_
            intro read hread
            refine hdeaf ⟨hstopping, ⟨sending, deadline, hphase⟩, ?_⟩
            rw [hread]
            exact Option.some_ne_none read
          simp only [CommandQueue.proceed?, phase_gist, hphase, hsame, hstopping,
            Bool.false_eq_true, if_false]
          unfold await?
          rw [hnothing]
          change Option.map gist (if deadline ≤ queue.now then _ else _) = _
          split
          · exact congrArg some (gist_elapse queue sending)
          · rfl
      | resting sending wake =>
          simp only [CommandQueue.proceed?, phase_gist, hphase, hsame, hstopping,
            Bool.false_eq_true, if_false]
          change Option.map gist (if wake ≤ queue.now then _ else _) = _
          split <;> rfl

/-- A move of a calm queue passes over an event, or is what it would do with nothing on the bus. -/
theorem Calm.proceed? (hcalm : Calm bus queue) (hholds : bus.Holds events)
    (hheld : queue.signal.holders ≠ 0) (hnext : queue.proceed? bus = some next) :
    ((Hearing bus queue ∧ next.gist = queue.gist) ∨
      (queue.gist.proceed? .empty).map gist = some next.gist) ∧ Calm bus next := by
  have hafter : Calm bus next := by
    rcases moves_of_proceed? hnext with hmove | ⟨middle, _, _, hmove, hmore⟩
    · exact hcalm.move hholds hmove
    · exact (hcalm.move hholds hmove).move hholds hmore
  refine ⟨?_, hafter⟩
  by_cases hhearing : Hearing bus queue
  · obtain ⟨sending, deadline, reading, behind, hphase, hread, hproceed⟩ := hhearing.proceed?
    obtain ⟨hignored, _⟩ := hcalm.ignores hholds hhearing.quiet hphase hread
    rw [hnext, hignored] at hproceed
    obtain rfl := Option.some.inj hproceed
    exact .inl ⟨hhearing, rfl⟩
  · rw [proceed?_gist hheld hhearing, hnext]
    exact .inr rfl

theorem proceed?_gist_eq_none (hheld : queue.signal.holders ≠ 0)
    (hnone : queue.proceed? bus = none) :
    ¬Hearing bus queue ∧ queue.gist.proceed? .empty = none := by
  have hdeaf : ¬Hearing bus queue := by
    intro hhearing
    obtain ⟨_, _, _, _, _, _, hsome⟩ := hhearing.proceed?
    rw [hnone] at hsome
    cases hsome
  refine ⟨hdeaf, ?_⟩
  have hgist := proceed?_gist hheld hdeaf
  rw [hnone] at hgist
  exact Option.map_eq_none_iff.1 hgist

/-! ## Running -/

theorem Calm.of_eq (h : Calm bus queue) (hphase : next.phase = queue.phase)
    (hwatcher : next.watcher = queue.watcher)
    (hstopping : queue.stopping = true → next.stopping = true) : Calm bus next := by
  refine h.imp hstopping fun hunpressed => ?_
  rintro ⟨job, k, howes⟩
  exact hunpressed ⟨job, k, howes.of_eq hphase.symm hwatcher.symm⟩

theorem Calm.endTurn (h : Calm bus queue) : Calm bus queue.endTurn := by
  refine h.of_eq rfl rfl fun hstopping => ?_
  refine eq_true_of_ne_false fun hquiet => ?_
  rw [stopping_of_endTurn hquiet] at hstopping
  cases hstopping

theorem step?_eq_none (h : queue.step? bus = none) :
    queue.proceed? bus = none ∧ queue.leaving = 0 ∧ queue.spent = 0 := by
  unfold step? at h
  split at h
  · cases h
  · next hmove =>
    split at h
    · next hnothing =>
      refine ⟨?_, hnothing⟩
      unfold move? isSpent at hmove
      rw [hnothing.2] at hmove
      exact Option.map_eq_none_iff.1 hmove
    · cases h

/-- The next thing that changes the gist of a queue, up to a time. -/
def beat? (target : Nat) (queue : CommandQueue) : Option CommandQueue :=
  match queue.proceed? .empty with
  | some next => some next.gist
  | none =>
    match queue.due? with
    | some due =>
      if due ≤ target then ({ queue with now := max queue.now due }.proceed? .empty).map gist
      else none
    | none => none

theorem Calm.step? (hcalm : Calm bus queue) (hholds : bus.Holds events)
    (hheld : queue.signal.holders ≠ 0) (hnext : queue.step? bus = some next) :
    (next.gist = queue.gist ∨ (queue.gist.proceed? .empty).map gist = some next.gist) ∧
      Calm bus next := by
  unfold CommandQueue.step? at hnext
  split at hnext
  · next hmove =>
    obtain rfl := Option.some.inj hnext
    obtain ⟨_, moved, hmoved, rfl⟩ := exists_of_move? hmove
    obtain ⟨hgist, hafter⟩ := hcalm.proceed? hholds hheld hmoved
    exact ⟨hgist.imp_left And.right, hafter.of_eq rfl rfl id⟩
  · split at hnext
    · cases hnext
    · obtain rfl := Option.some.inj hnext
      exact ⟨.inl rfl, hcalm.endTurn⟩

/-- At a later time, a queue that had nothing to do may have. -/
theorem step?_later (hholds : bus.Holds events) (hheld : queue.signal.holders ≠ 0)
    (hcalm : Calm bus queue) (hnone : queue.step? bus = none) (time : Nat)
    (hnext : { queue with now := time }.step? bus = some next) :
    ({ queue.gist with now := time }.proceed? .empty).map gist = some next.gist ∧
      Calm bus next := by
  obtain ⟨hproceed, hleaving, hspent⟩ := step?_eq_none hnone
  obtain ⟨hdeaf, _⟩ := proceed?_gist_eq_none hheld hproceed
  have hlater : Calm bus { queue with now := time } := hcalm.of_eq rfl rfl id
  unfold CommandQueue.step? at hnext
  split at hnext
  · next hmove =>
    obtain rfl := Option.some.inj hnext
    obtain ⟨_, moved, hmoved, rfl⟩ := exists_of_move? hmove
    obtain ⟨hgist, hafter⟩ := hlater.proceed? hholds hheld hmoved
    have hstill : ¬Hearing bus { queue with now := time } :=
      fun hhearing => hdeaf ⟨hhearing.quiet, hhearing.waiting, hhearing.unread⟩
    exact ⟨hgist.resolve_left fun hread => hstill hread.1, hafter.of_eq rfl rfl id⟩
  · rw [if_pos ⟨hleaving, hspent⟩] at hnext
    cases hnext

theorem Calm.stepBy? (hcalm : Calm bus queue) (hholds : bus.Holds events)
    (hheld : queue.signal.holders ≠ 0) {target : Nat}
    (hnext : queue.stepBy? bus target = some next) :
    (next.gist = queue.gist ∨ queue.gist.beat? target = some next.gist) ∧ Calm bus next := by
  unfold CommandQueue.stepBy? at hnext
  split at hnext
  · next hstep =>
    obtain rfl := Option.some.inj hnext
    obtain ⟨hgist, hafter⟩ := hcalm.step? hholds hheld hstep
    refine ⟨hgist.imp_right fun hproceed => ?_, hafter⟩
    obtain ⟨moved, hmoved, hsame⟩ := Option.map_eq_some_iff.1 hproceed
    rw [beat?, hmoved]
    exact congrArg some hsame
  · next hnone =>
    obtain ⟨_, hquiet⟩ := proceed?_gist_eq_none hheld (step?_eq_none hnone).1
    split at hnext
    · next due hdue =>
      split at hnext
      · next hle =>
        obtain ⟨hgist, hafter⟩ := step?_later hholds hheld hcalm hnone _ hnext
        have hdue' : queue.gist.due? = some due := hdue
        refine ⟨.inr ?_, hafter⟩
        rw [beat?, hquiet, hdue']
        dsimp only
        rw [if_pos hle]
        exact hgist
      · cases hnext
    · cases hnext

theorem beat?_eq_none (hheld : queue.signal.holders ≠ 0) {target : Nat}
    (hnone : queue.stepBy? bus target = none) : queue.gist.beat? target = none := by
  unfold CommandQueue.stepBy? at hnone
  split at hnone
  · cases hnone
  · next hstep =>
    obtain ⟨_, hquiet⟩ := proceed?_gist_eq_none hheld (step?_eq_none hstep).1
    rw [beat?, hquiet]
    dsimp only
    split
    · next due hdue =>
      have hdue' : queue.due? = some due := hdue
      rw [hdue'] at hnone
      dsimp only at hnone
      split
      · next hle =>
        rw [if_pos hle] at hnone
        have hlater : ({ queue with now := max queue.now due } : CommandQueue).signal.holders ≠ 0 :=
          hheld
        exact Option.map_eq_none_iff.2 (proceed?_gist_eq_none hlater (step?_eq_none hnone).1).2
      · rfl
    · rfl

/-- The beats of a queue up to a time lead there, and no other beat comes. -/
inductive Beats (target : Nat) : CommandQueue → CommandQueue → Prop where
  | rest {queue : CommandQueue} (h : queue.beat? target = none) : Beats target queue queue
  | beat {queue next last : CommandQueue} (h : queue.beat? target = some next)
      (hrest : Beats target next last) : Beats target queue last

theorem Beats.unique {target : Nat} {last other : CommandQueue} (h : Beats target queue last)
    (hother : Beats target queue other) : last = other := by
  induction h with
  | rest h =>
      cases hother with
      | rest _ => rfl
      | beat hbeat _ =>
          rw [h] at hbeat
          cases hbeat
  | beat h hrest ih =>
      cases hother with
      | rest hnone =>
          rw [h] at hnone
          cases hnone
      | beat hbeat hlater =>
          rw [h] at hbeat
          obtain rfl := Option.some.inj hbeat
          exact ih hlater

theorem Held.stepBy? {others target : Nat} (h : queue.Held others)
    (hnext : queue.stepBy? bus target = some next) : next.Held others := by
  have hstep : ∀ {queue : CommandQueue}, queue.Held others → queue.step? bus = some next →
      next.Held others := fun h hnext =>
    step?_of (P := fun queue => queue.Held others) (fun _ _ h hmove => h.move hmove)
      (fun _ _ h => h) (fun _ h => h.endTurn) h hnext
  unfold CommandQueue.stepBy? at hnext
  split at hnext
  · next hsome =>
    obtain rfl := Option.some.inj hnext
    exact hstep h hsome
  · split at hnext
    · split at hnext
      · next due _ _ =>
        have hlater : ({ queue with now := max queue.now due } : CommandQueue).Held others := h
        exact hstep hlater hnext
      · cases hnext
    · cases hnext

/-- A calm queue stays calm, and does what its beats say. -/
theorem Calm.runUntil (hcalm : Calm bus queue) (hholds : bus.Holds events) (hheld : queue.Held 1)
    (target : Nat) :
    Beats target queue.gist (queue.runUntil bus target).gist ∧
      Calm bus (queue.runUntil bus target) := by
  fun_induction CommandQueue.runUntil queue bus target with
  | case1 queue next hnext ih =>
      obtain ⟨hgist, hafter⟩ := hcalm.stepBy? hholds hheld.holders_ne_zero hnext
      obtain ⟨hbeats, hlast⟩ := ih hafter (hheld.stepBy? hnext)
      refine ⟨?_, hlast⟩
      rcases hgist with hsame | hbeat
      · rwa [hsame] at hbeats
      · exact .beat hbeat hbeats
  | case2 queue hnone => exact ⟨.rest (beat?_eq_none hheld.holders_ne_zero hnone), hcalm⟩

/-- Calm queues that are alike stay alike, whatever each of them passes over. -/
theorem gist_runUntil_eq {other : CommandQueue} {bus' : EventBus} {events' : List Event}
    (hcalm : Calm bus queue) (hholds : bus.Holds events) (hheld : queue.Held 1)
    (hcalm' : Calm bus' other) (hholds' : bus'.Holds events') (hheld' : other.Held 1)
    (hgist : other.gist = queue.gist) (target : Nat) :
    (other.runUntil bus' target).gist = (queue.runUntil bus target).gist := by
  have hbeats := (hcalm.runUntil hholds hheld target).1
  have hbeats' := (hcalm'.runUntil hholds' hheld' target).1
  rw [hgist] at hbeats'
  exact hbeats'.unique hbeats

/-! ## Turns that are not used up -/

theorem proceed?_endTurn_eq_none (hheld : queue.Held 1) (hnone : queue.proceed? bus = none) :
    queue.endTurn.proceed? bus = none := by
  obtain ⟨hdeaf, hrest⟩ := proceed?_gist_eq_none hheld.holders_ne_zero hnone
  have hstill : ¬Hearing bus queue.endTurn := fun hhearing =>
    hdeaf ⟨stopping_of_endTurn hhearing.quiet, hhearing.waiting, hhearing.unread⟩
  have hgist := proceed?_gist hheld.endTurn.holders_ne_zero hstill
  rw [gist_endTurn, hrest] at hgist
  exact Option.map_eq_none_iff.1 hgist.symm

theorem endTurn_endTurn (hspent : queue.isSpent = false) :
    queue.endTurn.endTurn = queue.endTurn := by
  have hfresh : queue.endTurn.isSpent = false := rfl
  have hheeds : ∀ heeds idle : Bool, (heeds || !queue.isSpent && idle || !false && idle) =
      (heeds || !queue.isSpent && idle) := by
    intro heeds idle
    rw [hspent, Bool.or_assoc, Bool.or_self]
  unfold endTurn at hfresh ⊢
  dsimp only at hfresh ⊢
  rw [hfresh, hheeds, hheeds]
  rfl

theorem runUntil_of_step {target : Nat} (h : queue.stepBy? bus target = some next) :
    queue.runUntil bus target = next.runUntil bus target := by
  rw [CommandQueue.runUntil]
  split
  · next hnext =>
    rw [h] at hnext
    rw [Option.some.inj hnext]
  · next hnone =>
    rw [h] at hnone
    cases hnone

/-- A queue that is at rest stays as it is at the present time. -/
theorem runUntil_of_rest (hnone : queue.proceed? bus = none) (hleaving : queue.leaving = 0)
    (hspent : queue.spent = 0) : queue.runUntil bus queue.now = queue := by
  have hmove : queue.move? bus = none := by
    unfold move?
    rw [hnone]
    split <;> rfl
  have hstep : queue.step? bus = none := by
    unfold CommandQueue.step?
    rw [hmove]
    exact if_pos ⟨hleaving, hspent⟩
  have hlast : queue.stepBy? bus queue.now = none := by
    unfold CommandQueue.stepBy?
    rw [hstep]
    dsimp only
    split
    · next due _ =>
      split
      · next hdue =>
        rw [Nat.max_eq_left hdue]
        exact hstep
      · rfl
    · rfl
  rw [CommandQueue.runUntil]
  split
  · next hnext =>
    rw [hlast] at hnext
    cases hnext
  · rfl

/-- A turn that is not used up does all that there is to do at the present time. -/
theorem endTurn_turn_eq (hheld : queue.Held 1) (hspent : (queue.turn bus).isSpent = false) :
    (queue.turn bus).endTurn = queue.settle bus := by
  unfold settle
  fun_induction CommandQueue.turn queue bus with
  | case1 queue next hmove ih =>
      have hheld' : next.Held 1 := move?_of (P := fun queue => queue.Held 1)
        (fun _ _ h hmove => h.move hmove) (fun _ _ h => h) hheld hmove
      have hnow : next.now = queue.now := move?_of (P := fun later => later.now = queue.now)
        (fun _ _ h hmove => hmove.now_eq.trans h) (fun _ _ h => h) rfl hmove
      have hstep : queue.stepBy? bus queue.now = some next := by
        unfold CommandQueue.stepBy? CommandQueue.step?
        rw [hmove]
      rw [runUntil_of_step hstep, ← hnow]
      exact ih hheld' hspent
  | case2 queue hmove =>
      have hproceed : queue.proceed? bus = none := by
        unfold move? at hmove
        rw [hspent, if_neg Bool.false_ne_true] at hmove
        exact Option.map_eq_none_iff.1 hmove
      by_cases hfresh : queue.leaving = 0 ∧ queue.spent = 0
      · rw [runUntil_of_rest hproceed hfresh.1 hfresh.2]
      · have hstep : queue.stepBy? bus queue.now = some queue.endTurn := by
          unfold CommandQueue.stepBy? CommandQueue.step?
          rw [hmove]
          dsimp only
          rw [if_neg hfresh]
        have hrest := runUntil_of_rest (proceed?_endTurn_eq_none hheld hproceed) rfl rfl
        change queue.endTurn.runUntil bus queue.now = queue.endTurn at hrest
        rw [runUntil_of_step hstep, hrest, endTurn_endTurn hspent]

/-! ## Two queues abreast -/

/-- A queue is like another one, and has a confirmation to read whenever that one has. -/
structure Abreast (bus : EventBus) (queue : CommandQueue) (bus' : EventBus)
    (other : CommandQueue) : Prop where
  gist : other.gist = queue.gist
  pressed : queue.stopping = false → Pressed bus queue → Pressed bus' other

variable {bus' : EventBus} {events' : List Event} {other : CommandQueue}

theorem Abreast.phase_eq (h : Abreast bus queue bus' other) : other.phase = queue.phase := by
  have hphase := congrArg CommandQueue.phase h.gist
  exact hphase

theorem Abreast.now_eq (h : Abreast bus queue bus' other) : other.now = queue.now := by
  have hnow := congrArg CommandQueue.now h.gist
  exact hnow

theorem Abreast.unfinished_eq (h : Abreast bus queue bus' other) :
    other.unfinished = queue.unfinished := by
  have hunfinished := congrArg unfinished h.gist
  exact hunfinished

theorem Abreast.log_eq (h : Abreast bus queue bus' other) : other.log = queue.log := by
  have hlog := congrArg CommandQueue.log h.gist
  exact hlog

theorem Abreast.stopping_eq (h : Abreast bus queue bus' other) (hheld : queue.Held 1)
    (hheld' : other.Held 1) : other.stopping = queue.stopping := by
  rw [← stopping_gist hheld.holders_ne_zero, ← stopping_gist hheld'.holders_ne_zero, h.gist]

theorem Abreast.endTurn (h : Abreast bus queue bus' other) :
    Abreast bus queue.endTurn bus' other.endTurn where
  gist := h.gist
  pressed := by
    rintro hquiet ⟨job, k, howes⟩
    obtain ⟨job', k', howes'⟩ := h.pressed (stopping_of_endTurn hquiet)
      ⟨job, k, howes.of_eq rfl rfl⟩
    exact ⟨job', k', howes'.of_eq rfl rfl⟩

theorem Abreast.at (h : Abreast bus queue bus' other) (time : Nat) :
    Abreast bus { queue with now := time } bus' { other with now := time } where
  gist := congrArg (fun queue => { queue with now := time }) h.gist
  pressed := by
    rintro hquiet ⟨job, k, howes⟩
    obtain ⟨job', k', howes'⟩ := h.pressed hquiet ⟨job, k, howes.of_eq rfl rfl⟩
    exact ⟨job', k', howes'.of_eq rfl rfl⟩

/-- The other queue has a confirmation to read now, or both go on without one. -/
theorem Abreast.runUntil (h : Abreast bus queue bus' other) (hholds : bus.Holds events)
    (hheld : queue.Held 1) (hholds' : bus'.Holds events') (hheld' : other.Held 1) (target : Nat) :
    (other.stopping = false ∧ Pressed bus' other) ∨
      Abreast bus (queue.runUntil bus target) bus' (other.runUntil bus' target) := by
  have hsame := h.stopping_eq hheld hheld'
  by_cases hpressed : other.stopping = false ∧ Pressed bus' other
  · exact .inl hpressed
  refine .inr ?_
  have hcalm' : Calm bus' other := by
    cases hstopping : other.stopping with
    | true => exact .inl hstopping
    | false => exact .inr fun hother => hpressed ⟨hstopping, hother⟩
  have hcalm : Calm bus queue := by
    cases hstopping : queue.stopping with
    | true => exact .inl hstopping
    | false =>
        rw [hstopping] at hsame
        exact .inr fun hqueue => hpressed ⟨hsame, h.pressed hstopping hqueue⟩
  refine ⟨gist_runUntil_eq hcalm hholds hheld hcalm' hholds' hheld' h.gist target, ?_⟩
  intro hquiet hlater
  rcases (hcalm.runUntil hholds hheld target).2 with hstopping | hunpressed
  · rw [hquiet] at hstopping
    cases hstopping
  · exact absurd hlater hunpressed

/-! ## Which commands there are -/

theorem Move.unfinished_subset (h : Move bus queue next) : next.unfinished ⊆ queue.unfinished := by
  intro job hjob
  cases h with
  | stop _ _ =>
      rw [stop_eq] at hjob
      cases hjob
  | pickHigh _ hidle hhigh =>
      simpa [unfinished, current, pick, Phase.sending?, hidle, hhigh] using hjob
  | pickLow _ hidle hhigh hlow =>
      simpa [unfinished, current, pick, Phase.sending?, hidle, hhigh, hlow] using hjob
  | transmit _ hpacing _ =>
      simpa [unfinished, current, CommandQueue.transmit, Phase.sending?, hpacing] using hjob
  | ignore _ _ _ _ => exact hjob
  | confirm _ hwaiting _ _ =>
      rw [unfinished, List.append_assoc]
      exact List.mem_append_right _ hjob
  | giveUp _ hwaiting _ _ _ =>
      rw [unfinished, List.append_assoc]
      exact List.mem_append_right _ hjob
  | rest _ hwaiting _ _ _ =>
      simpa [unfinished, current, Phase.sending?, hwaiting] using hjob
  | rise _ hresting _ =>
      simpa [unfinished, current, Phase.sending?, hresting] using hjob

theorem unfinished_runUntil_subset (queue : CommandQueue) (bus : EventBus) (target : Nat) :
    (queue.runUntil bus target).unfinished ⊆ queue.unfinished :=
  runUntil_of (P := fun later => later.unfinished ⊆ queue.unfinished)
    (fun _ _ h hmove => List.Subset.trans hmove.unfinished_subset h) (fun _ _ h => h) (fun _ h => h)
    (fun _ _ h _ => h) (List.Subset.refl _)

end PanelBus.CommandQueue
