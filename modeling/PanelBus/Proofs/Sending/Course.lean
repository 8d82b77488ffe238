import Mathlib.Data.List.Permutation
import PanelBus.Proofs.Sending.Ledger
/-!
# What becomes of a command

A queue keeps a balance: the sendings made and the repetitions left add up to what the retry policy
of the command at hand allows.  With the stories of all commands it is kept by every move and by
everything that happens around the queue.
-/

namespace PanelBus

/-- The sendings made and those left add up. -/
def Phase.Balanced : Phase → Prop
  | .idle | .ended => True
  | .pacing sending | .resting sending _ =>
    sending.sent + sending.left + 1 = sending.job.request.retry.total
  | .waiting sending _ =>
    0 < sending.sent ∧ sending.sent + sending.left = sending.job.request.retry.total

/-- The story so far of the command at hand. -/
def Sending.entry (sending : Sending) : Job × List Deed :=
  (sending.job, sending.job.request.course true sending.sent none)

/-- The story of a command in its lane. -/
def Job.entry (job : Job) : Job × List Deed := (job, job.request.course false 0 none)

/-- The commands that are not over, with their stories. -/
def CommandQueue.entries (queue : CommandQueue) : List (Job × List Deed) :=
  queue.phase.sending?.toList.map Sending.entry ++ (queue.high ++ queue.low).map Job.entry

theorem CommandQueue.map_fst_entries (queue : CommandQueue) :
    queue.entries.map Prod.fst = queue.unfinished := by
  simp [entries, unfinished, current, Sending.entry, Job.entry, Function.comp_def]

/-- The stories of commands that are not over, in a queue that is balanced. -/
theorem CommandQueue.course_of_mem_entries {queue : CommandQueue} (h : queue.phase.Balanced)
    {entry : Job × List Deed} (hentry : entry ∈ queue.entries) :
    ∃ request taken sendings, entry.2 = SendRequest.course request taken sendings none ∧
      sendings ≤ request.retry.total := by
  rcases List.mem_append.1 hentry with hhand | hlane
  · obtain ⟨sending, hsending, rfl⟩ := List.mem_map.1 hhand
    refine ⟨_, _, _, rfl, ?_⟩
    rw [Option.mem_toList] at hsending
    unfold Phase.sending? at hsending
    split at hsending <;> cases hsending <;> simp only [*, Phase.Balanced] at h <;> omega
  · obtain ⟨job, _, rfl⟩ := List.mem_map.1 hlane
    exact ⟨_, _, _, rfl, Nat.zero_le _⟩

/-- A command may be stopped at any time before it is over. -/
theorem CommandQueue.over_of_mem_entries {queue : CommandQueue} (h : queue.phase.Balanced)
    {entry : Job × List Deed} (hentry : entry ∈ queue.entries) :
    Over (entry.2 ++ [.done (.error .stopped)]) := by
  obtain ⟨request, taken, sendings, hcourse, htotal⟩ := course_of_mem_entries h hentry
  rw [hcourse, course_done]
  exact .inr ⟨request, taken, sendings, _, rfl, htotal⟩

namespace Exchange

/-- The commands that are not over, with their stories. -/
def entries (ex : Exchange) : List (Job × List Deed) :=
  ex.coming.map (·, []) ++ ex.queue.entries

/-- The books of an exchange are in order. -/
structure Sound (ex : Exchange) : Prop where
  ledger : Ledger ex.entries ex.queue.issued ex.timeline
  balanced : ex.queue.phase.Balanced

theorem sound_start (capacity txDelay : Nat) (earlier : List Event) (outlet : Outlet) :
    (start capacity txDelay earlier outlet).Sound where
  ledger := by
    refine ⟨List.nodup_nil, ?_, ?_, ?_⟩
    · intro entry hentry
      cases hentry
    · intro ticket _
      exact story_map_published earlier
    · intro ticket hticket
      exact absurd hticket (Nat.not_lt_zero ticket)
  balanced := trivial

variable {ex : Exchange} {next : CommandQueue}

/-! ## Moves of the queue -/

/-- A command leaves its lane. -/
theorem Sound.pick (h : ex.Sound) {queue : CommandQueue} {job : Job}
    (hidle : ex.queue.phase = .idle) (hlog : queue.log = ex.queue.log)
    (hissued : queue.issued = ex.queue.issued)
    (hlanes : (ex.queue.high ++ ex.queue.low).Perm (job :: (queue.high ++ queue.low))) :
    (ex.note (queue.pick job)).Sound where
  ledger := by
    have hbefore : ex.entries.Perm
        (job.entry :: (ex.coming.map (·, []) ++ (queue.high ++ queue.low).map Job.entry)) := by
      unfold entries CommandQueue.entries
      rw [hidle]
      exact ((hlanes.map Job.entry).append_left _).trans List.perm_middle
    have hafter : (ex.note (queue.pick job)).entries.Perm ((job, job.request.course true 0 none) ::
        (ex.coming.map (·, []) ++ (queue.high ++ queue.low).map Job.entry)) := List.perm_middle
    have htold := (h.ledger.perm hbefore).tell_report (.taken queue.now job.ticket) rfl
    have hpick : (queue.pick job).log = .taken queue.now job.ticket :: ex.queue.log := by
      rw [← hlog]
      rfl
    rw [timeline_note_cons hpick]
    change Ledger _ queue.issued _
    rw [hissued]
    exact htold.perm hafter.symm
  balanced := by
    change 0 + _ + 1 = _
    rw [Nat.zero_add]
    rfl

theorem entries_of_phase {sending : Sending} (h : ex.queue.phase.sending? = some sending) :
    ex.entries.Perm (sending.entry ::
      (ex.coming.map (·, []) ++ (ex.queue.high ++ ex.queue.low).map Job.entry)) := by
  unfold entries CommandQueue.entries
  rw [h]
  exact List.perm_middle

theorem Sound.transmit (h : ex.Sound) {sending : Sending}
    (hphase : ex.queue.phase = .pacing sending) :
    (ex.note (ex.queue.transmit ex.bus sending)).Sound where
  ledger := by
    have hhand : ex.queue.phase.sending? = some sending := by
      rw [hphase]
      rfl
    have htold := (h.ledger.perm (entries_of_phase hhand)).tell_report
      (.sent ex.queue.now sending.job.ticket sending.job.request.frame) rfl
    have hcourse := course_sent sending.job.request true sending.sent
    change Ledger ((_, _ ++ [.sent _]) :: _) _ _ at htold
    rw [hcourse] at htold
    have hlog : (ex.queue.transmit ex.bus sending).log =
        .sent ex.queue.now sending.job.ticket sending.job.request.frame :: ex.queue.log := rfl
    rw [timeline_note_cons hlog]
    exact htold.perm List.perm_middle.symm
  balanced := by
    have hbalanced := h.balanced
    rw [hphase] at hbalanced
    simp only [Phase.Balanced] at hbalanced
    refine ⟨Nat.succ_pos _, ?_⟩
    dsimp only
    omega

/-- The command at hand gets a result that it has earned. -/
theorem Sound.finish (h : ex.Sound) {queue : CommandQueue} {sending : Sending}
    {result : CommandResult} (hphase : ex.queue.phase.sending? = some sending)
    (hqueue : queue.log = ex.queue.log ∧ queue.issued = ex.queue.issued ∧
      queue.high = ex.queue.high ∧ queue.low = ex.queue.low)
    (hearns : sending.job.request.Earns sending.sent result) :
    (ex.note (queue.finish sending.job result)).Sound where
  ledger := by
    obtain ⟨hlog, hissued, hhigh, hlow⟩ := hqueue
    have htold := (h.ledger.perm (entries_of_phase hphase)).tell_report
      (.done queue.now sending.job.ticket result) rfl
    have hover : Over (sending.entry.2 ++ [.done result]) :=
      .inr ⟨_, _, _, _, course_done _ _ _ _, hearns⟩
    have hfinish : (queue.finish sending.job result).log =
        .done queue.now sending.job.ticket result :: ex.queue.log := by
      rw [← hlog]
      rfl
    rw [timeline_note_cons hfinish]
    change Ledger (_ ++ (queue.high ++ queue.low).map Job.entry) queue.issued _
    rw [hissued, hhigh, hlow]
    exact htold.close hover
  balanced := trivial

theorem Sound.stop (h : ex.Sound) : (ex.note (ex.queue.stop ex.queue.current)).Sound := by
  rw [CommandQueue.stop_eq]
  refine ⟨?_, trivial⟩
  have hentries := h.ledger.perm List.perm_append_comm
  have hclosed := hentries.close_all ex.queue.now (.error .stopped)
    fun entry hentry => CommandQueue.over_of_mem_entries h.balanced hentry
  have hreports : (ex.queue.entries.map fun entry =>
      Report.done ex.queue.now entry.1.ticket (.error .stopped)) =
        ex.queue.unfinished.map fun job => .done ex.queue.now job.ticket (.error .stopped) := by
    rw [← CommandQueue.map_fst_entries, List.map_map]
    rfl
  rw [timeline_note rfl, List.reverse_reverse, ← hreports]
  exact hclosed.perm (.of_eq (List.append_nil _).symm)

/-- Nothing happens to any command. -/
theorem Sound.keep (h : ex.Sound) {queue : CommandQueue} (hlog : queue.log = ex.queue.log)
    (hissued : queue.issued = ex.queue.issued) (hentries : queue.entries = ex.queue.entries)
    (hbalanced : queue.phase.Balanced) : (ex.note queue).Sound where
  ledger := by
    rw [timeline_note_nil hlog]
    change Ledger (ex.coming.map (·, []) ++ queue.entries) queue.issued ex.timeline
    rw [hentries, hissued]
    exact h.ledger
  balanced := hbalanced

theorem Sound.move (h : ex.Sound) (hmove : CommandQueue.Move ex.bus ex.queue next) :
    (ex.note next).Sound := by
  have hbalanced := h.balanced
  cases hmove with
  | stop _ _ => exact h.stop
  | pickHigh _ hidle hhigh =>
      refine h.pick hidle rfl rfl ?_
      rw [hhigh]
      exact List.Perm.refl _
  | pickLow _ hidle hhigh hlow =>
      refine h.pick hidle rfl rfl ?_
      rw [hhigh, hlow]
      exact List.Perm.refl _
  | transmit _ hphase _ => exact h.transmit hphase
  | ignore _ _ _ _ => exact h.keep rfl rfl rfl hbalanced
  | confirm _ hphase _ _ =>
      refine h.finish (by rw [hphase]; rfl) ⟨rfl, rfl, rfl, rfl⟩ ?_
      rw [hphase] at hbalanced
      exact ⟨rfl, hbalanced.1, Nat.le_of_add_right_le (Nat.le_of_eq hbalanced.2)⟩
  | giveUp _ hphase _ _ hleft =>
      refine h.finish (by rw [hphase]; rfl) ⟨rfl, rfl, rfl, rfl⟩ ?_
      rw [hphase] at hbalanced
      have hsent := hbalanced.2
      rw [hleft] at hsent
      exact ⟨hsent.symm, hsent⟩
  | rest _ hphase _ _ hleft =>
      refine h.keep rfl rfl ?_ ?_
      · unfold CommandQueue.entries
        rw [hphase]
        rfl
      · rw [hphase] at hbalanced
        have hsent := hbalanced.2
        rw [hleft] at hsent
        exact hsent
  | rise _ hphase _ =>
      refine h.keep rfl rfl ?_ ?_
      · unfold CommandQueue.entries
        rw [hphase]
        rfl
      · rw [hphase] at hbalanced
        exact hbalanced

/-! ## What others do -/

theorem Sound.quiet (h : ex.Sound) {next : Exchange} (hquiet : Quiet ex next) : next.Sound where
  ledger := by
    have hentries : next.entries = ex.entries := by
      simp only [entries, CommandQueue.entries, hquiet.coming, hquiet.phase, hquiet.lanes]
    rw [hentries, hquiet.issued, hquiet.timeline]
    exact h.ledger
  balanced := by
    rw [hquiet.phase]
    exact h.balanced

/-- A command comes into its lane. -/
theorem Sound.append (h : ex.Sound) {job : Job} {issued : Nat} {coming : List Job}
    (hledger : Ledger ((job, []) :: (coming.map (·, []) ++ ex.queue.entries)) issued ex.timeline) :
    Sound { ex with
      queue := { ex.queue with issued }.append job
      coming
      timeline := ex.timeline ++ [.accepted job] } where
  ledger := by
    have hlanes := ({ ex.queue with issued } : CommandQueue).lanes_append job
    have hafter : (({ ex.queue with issued } : CommandQueue).append job).entries.Perm
        (job.entry :: ex.queue.entries) := by
      unfold CommandQueue.entries
      rw [CommandQueue.phase_append]
      exact ((hlanes.map Job.entry).append_left _).trans List.perm_middle
    dsimp only
    rw [CommandQueue.issued_append]
    exact hledger.tell_accepted.perm (((hafter.append_left _).trans List.perm_middle).symm)
  balanced := by
    dsimp only
    rw [CommandQueue.phase_append]
    exact h.balanced

theorem Sound.coming_perm (h : ex.Sound) {job : Job} (hcoming : job ∈ ex.coming) :
    Ledger ((job, []) :: ((ex.coming.erase job).map (·, []) ++ ex.queue.entries)) ex.queue.issued
      ex.timeline :=
  h.ledger.perm ((((List.perm_cons_erase hcoming).map (·, [])).append_right _))

theorem Sound.effect (h : ex.Sound) {next : Exchange} (heffect : ex.Effect next) : next.Sound := by
  cases heffect with
  | quiet hquiet => exact h.quiet hquiet
  | publish event => exact ⟨h.ledger.append fun _ => story_published event, h.balanced⟩
  | @accept job issued coming hopen hcame =>
      rcases hcame with ⟨_, hticket, rfl, rfl⟩ | ⟨hcoming, rfl, rfl⟩
      · have hjob : (⟨ex.queue.issued, job.request⟩ : Job) = job := by rw [← hticket]
        have hissue := h.ledger.issue job.request
        rw [hjob] at hissue
        exact h.append hissue
      · exact h.append (h.coming_perm hcoming)
  | send request hheld =>
      refine ⟨?_, h.balanced⟩
      have hafter : ((ex.coming ++ [Job.mk ex.queue.issued request]).map (·, []) ++
          ex.queue.entries).Perm ((Job.mk ex.queue.issued request, []) :: ex.entries) := by
        rw [List.map_append, List.append_assoc]
        exact List.perm_middle
      exact (h.ledger.issue request).perm hafter.symm
  | @refuse job error hcoming hrefusal =>
      have htold := (h.coming_perm hcoming).tell_report
        (.done ex.queue.now job.ticket (.error error)) rfl
      have hlog : (ex.queue.conclude job (.error error)).log =
          .done ex.queue.now job.ticket (.error error) :: ex.queue.log := rfl
      refine ⟨?_, h.balanced⟩
      change Ledger _ _ (ex.note _).timeline
      rw [timeline_note_cons hlog]
      exact htold.close (.inl ⟨error, rfl⟩)
  | move hmove =>
      exact note_of_move? (P := Sound) (fun ex next hex hquiet => hex.quiet hquiet)
        (fun ex next hex hmove => hex.move hmove) h hmove

theorem sound_run (capacity txDelay : Nat) (earlier : List Event) (outlet : Outlet)
    (acts : List Act) : ((start capacity txDelay earlier outlet).run acts).Sound :=
  run_of (fun ex act h => h.effect (ex.step_effect act)) _
    (sound_start capacity txDelay earlier outlet) acts

/-! ## Main result -/

theorem Sound.told (h : ex.Sound) {job : Job} (hjob : .accepted job ∈ ex.timeline) :
    ∃ taken sendings result?,
      story job.ticket ex.timeline = job.request.course taken sendings result? ∧
        sendings ≤ job.request.retry.total ∧
          ∀ result ∈ result?, job.request.Earns sendings result := by
  have haccepted := accepted_mem_story hjob
  have hissued := h.ledger.lt_issued haccepted
  -- The ticket was given out, so the command is on the ledger or over.
  by_cases hentry : ∃ entry ∈ ex.entries, entry.1.ticket = job.ticket
  · obtain ⟨entry, hentry, hticket⟩ := hentry
    have hstory := (h.ledger.told entry hentry).2
    rw [hticket] at hstory
    rw [hstory] at haccepted ⊢
    rcases List.mem_append.1 hentry with hcoming | hqueue
    · obtain ⟨other, _, rfl⟩ := List.mem_map.1 hcoming
      cases haccepted
    · obtain ⟨request, taken, sendings, hcourse, htotal⟩ :=
        CommandQueue.course_of_mem_entries h.balanced hqueue
      rw [hcourse] at haccepted ⊢
      obtain rfl := eq_of_accepted_mem_course haccepted
      exact ⟨taken, sendings, none, rfl, htotal, fun _ hnone => nomatch hnone⟩
  · have hover := h.ledger.finished job.ticket hissued
      fun entry hmem hticket => hentry ⟨entry, hmem, hticket⟩
    rcases hover with ⟨error, hstory⟩ | ⟨request, taken, sendings, result, hstory, hearns⟩
    · rw [hstory] at haccepted
      simp at haccepted
    · rw [hstory] at haccepted ⊢
      obtain rfl := eq_of_accepted_mem_course haccepted
      refine ⟨taken, sendings, some result, rfl, hearns.le_total, ?_⟩
      intro other hother
      obtain rfl := Option.some.inj hother
      exact hearns

/-- A command that was accepted is perhaps taken up, then sent so many times, never more often than
its retry policy allows, and then perhaps brought to an end, with a result that agrees with the
number of sendings.  Nothing else happens to it, and nothing happens to it after that. -/
theorem course_of_accepted (capacity txDelay : Nat) (earlier : List Event) (outlet : Outlet)
    (acts : List Act) {job : Job}
    (hjob : .accepted job ∈ ((start capacity txDelay earlier outlet).run acts).timeline) :
    ∃ taken sendings result?,
      story job.ticket ((start capacity txDelay earlier outlet).run acts).timeline =
          job.request.course taken sendings result? ∧
        sendings ≤ job.request.retry.total ∧
          ∀ result ∈ result?, job.request.Earns sendings result :=
  (sound_run capacity txDelay earlier outlet acts).told hjob

/-- A command to a lamp, with two repetitions. -/
def lampRequest : SendRequest :=
  { deviceId := "lamp", frame := [0xf7, 0x01], retry := ⟨2, 100, 50⟩, priority := .high }

/-- The lamp answers to the second sending only. -/
def lampActs : List Act :=
  [.enqueue lampRequest, .move, .pass 100, .move, .pass 50, .move, .move,
    .publish (.stateChanged ⟨"lamp", [], []⟩), .move]

theorem course_of_accepted_lamp :
    ∃ job, .accepted job ∈ ((start 4 0 [] { capacity? := some 1 }).run lampActs).timeline ∧
      job = ⟨0, lampRequest⟩ ∧ ∃ taken sendings result?,
        story 0 ((start 4 0 [] { capacity? := some 1 }).run lampActs).timeline =
            lampRequest.course taken sendings result? ∧
          sendings ≤ 3 ∧ ∀ result ∈ result?, lampRequest.Earns sendings result := by
  have hjob : .accepted ⟨0, lampRequest⟩ ∈
      ((start 4 0 [] { capacity? := some 1 }).run lampActs).timeline :=
    List.mem_of_getElem? (i := 0) (by cbv)
  exact ⟨⟨0, lampRequest⟩, hjob, rfl,
    course_of_accepted 4 0 [] { capacity? := some 1 } lampActs hjob⟩

example : story 0 ((start 4 0 [] { capacity? := some 1 }).run lampActs).timeline =
    lampRequest.course true 2 (some (.ok 2)) := by
  cbv

end Exchange

end PanelBus
