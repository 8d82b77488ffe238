import PanelBus.Proofs.Sending.Course
/-!
# The moment of a report

A queue reports that it takes up or sends a command in one of its moves.  At that moment the
timeline holds exactly what stands before the report, so whatever every run keeps can be told of
what came before it.
-/

namespace PanelBus

/-- Whether a report is the result of a command. -/
def Report.isDone : Report → Bool
  | .done _ _ _ => true
  | _ => false

theorem Report.deed_ne_done {report : Report} (h : report.isDone = false) (result : CommandResult) :
    report.deed ≠ .done result := by
  cases report with
  | taken time ticket => exact fun heq => nomatch heq
  | sent time ticket frame => exact fun heq => nomatch heq
  | done time ticket other => cases h

theorem Report.deed_ne_accepted (report : Report) (request : SendRequest) :
    report.deed ≠ .accepted request := by
  cases report <;> exact fun heq => nomatch heq

/-! ## What a story says of a timeline -/

theorem accepted_of_mem_story {request : SendRequest} {ticket : Nat} {timeline : List Happening}
    (h : .accepted request ∈ story ticket timeline) : .accepted ⟨ticket, request⟩ ∈ timeline := by
  obtain ⟨happening, hmem, hdeed⟩ := List.mem_filterMap.1 h
  cases happening with
  | published event => cases hdeed
  | accepted job =>
      simp only [Happening.deed?] at hdeed
      split at hdeed
      · next hticket =>
        injection hdeed with hdeed
        injection hdeed with hrequest
        rw [← hticket, ← hrequest]
        exact hmem
      · cases hdeed
  | reported report =>
      simp only [Happening.deed?] at hdeed
      split at hdeed
      · exact absurd (Option.some.inj hdeed) (report.deed_ne_accepted request)
      · cases hdeed

theorem done_of_mem_story {result : CommandResult} {ticket : Nat} {timeline : List Happening}
    (h : .done result ∈ story ticket timeline) :
    ∃ time, .reported (.done time ticket result) ∈ timeline := by
  obtain ⟨happening, hmem, hdeed⟩ := List.mem_filterMap.1 h
  cases happening with
  | published event => cases hdeed
  | accepted job =>
      simp only [Happening.deed?] at hdeed
      split at hdeed <;> cases hdeed
  | reported report =>
      simp only [Happening.deed?] at hdeed
      split at hdeed
      · next hticket =>
        cases report with
        | done time other given =>
            injection hdeed with hdeed
            injection hdeed with hresult
            change other = ticket at hticket
            rw [hticket, hresult] at hmem
            exact ⟨time, hmem⟩
        | taken time other => cases hdeed
        | sent time other frame => cases hdeed
      · cases hdeed

theorem deed_mem_story {report : Report} {timeline : List Happening}
    (h : .reported report ∈ timeline) : report.deed ∈ story report.ticket timeline :=
  List.mem_filterMap.2 ⟨_, h, by simp [Happening.deed?]⟩

/-- The story of a command that is over ends with its result. -/
theorem Over.getLast?_eq {deeds : List Deed} (h : Over deeds) :
    ∃ result, deeds.getLast? = some (.done result) := by
  rcases h with ⟨error, rfl⟩ | ⟨request, taken, sendings, result, rfl, _⟩
  · exact ⟨_, rfl⟩
  · refine ⟨result, ?_⟩
    rw [← course_done]
    exact List.getLast?_concat

theorem Over.done_mem {early since : List Deed} {deed : Deed} (h : Over (early ++ deed :: since))
    (hdeed : ∀ result, deed ≠ .done result) : ∃ result, .done result ∈ since := by
  obtain ⟨result, hlast⟩ := h.getLast?_eq
  rw [List.getLast?_append, List.getLast?_cons, Option.some_or] at hlast
  cases hsince : since.getLast? with
  | none =>
      rw [hsince] at hlast
      exact absurd (Option.some.inj hlast) (hdeed result)
  | some last =>
      rw [hsince] at hlast
      obtain rfl := Option.some.inj hlast
      exact ⟨result, List.mem_of_getLast? hsince⟩

namespace CommandQueue

/-- A move reports nothing or one thing, or else it gives results only. -/
theorem Move.log_cases {bus : EventBus} {queue next : CommandQueue} (h : Move bus queue next) :
    next.log = queue.log ∨ (∃ report, next.log = report :: queue.log) ∨
      ∃ reports, next.log = reports ++ queue.log ∧ ∀ report ∈ reports, report.isDone = true := by
  cases h with
  | stop _ _ =>
      rw [stop_eq]
      refine .inr (.inr ⟨_, rfl, ?_⟩)
      intro report hreport
      obtain ⟨job, _, rfl⟩ := List.mem_map.1 (List.mem_reverse.1 hreport)
      rfl
  | pickHigh _ _ _ => exact .inr (.inl ⟨_, rfl⟩)
  | pickLow _ _ _ _ => exact .inr (.inl ⟨_, rfl⟩)
  | transmit _ _ _ => exact .inr (.inl ⟨_, rfl⟩)
  | ignore _ _ _ _ => exact .inl rfl
  | confirm _ _ _ _ => exact .inr (.inl ⟨_, rfl⟩)
  | giveUp _ _ _ _ _ => exact .inr (.inl ⟨_, rfl⟩)
  | rest _ _ _ _ _ => exact .inl rfl
  | rise _ _ _ => exact .inl rfl

/-- What is no result is reported when a command leaves its lane and when it is sent. -/
theorem Move.picks_or_sends {bus : EventBus} {queue next : CommandQueue} (h : Move bus queue next)
    {report : Report} (hlog : next.log = report :: queue.log) (hreport : report.isDone = false) :
    (queue.phase = .idle ∧ ∃ lane job waiting, queue.lane lane = job :: waiting ∧
      (lane = .low → queue.high = []) ∧ report = .taken queue.now job.ticket) ∨
    ∃ sending, queue.phase = .pacing sending ∧ queue.ready ≤ queue.now ∧
      report = .sent queue.now sending.job.ticket sending.job.request.frame := by
  have hnothing : queue.log ≠ report :: queue.log := fun hsame => List.cons_ne_self _ _ hsame.symm
  cases h with
  | stop _ _ =>
      rw [stop_eq] at hlog
      have hsame : _ ++ queue.log = [report] ++ queue.log := hlog
      have hreports := List.append_cancel_right hsame
      have hmem : report ∈ [report] := List.mem_singleton_self report
      rw [← hreports, List.mem_reverse] at hmem
      obtain ⟨job, _, rfl⟩ := List.mem_map.1 hmem
      cases hreport
  | pickHigh _ hidle hhigh =>
      exact .inl ⟨hidle, .high, _, _, hhigh, nofun, (List.cons.inj hlog).1.symm⟩
  | pickLow _ hidle hhigh hlow =>
      exact .inl ⟨hidle, .low, _, _, hlow, fun _ => hhigh, (List.cons.inj hlog).1.symm⟩
  | transmit _ hphase hready => exact .inr ⟨_, hphase, hready, (List.cons.inj hlog).1.symm⟩
  | ignore _ _ _ _ => exact absurd hlog hnothing
  | confirm _ _ _ _ =>
      rw [← (List.cons.inj hlog).1] at hreport
      cases hreport
  | giveUp _ _ _ _ _ =>
      rw [← (List.cons.inj hlog).1] at hreport
      cases hreport
  | rest _ _ _ _ _ => exact absurd hlog hnothing
  | rise _ _ _ => exact absurd hlog hnothing

end CommandQueue

namespace Exchange

variable {ex next : Exchange} {early late : List Happening} {report : Report}

/-- The queue makes a move that reports this, and so much was noted before. -/
structure Moment (ex : Exchange) (early : List Happening) (report : Report) : Prop where
  timeline : ex.timeline = early
  move : ∃ next, CommandQueue.Move ex.bus ex.queue next ∧ next.log = report :: ex.queue.log

theorem mem_added {α : Type} {first early more : List α} {a : α} (hfirst : first <+: early)
    (hnow : early ++ [a] <+: first ++ more) : a ∈ more := by
  obtain ⟨between, rfl⟩ := hfirst
  rw [List.append_assoc, List.prefix_append_right_inj] at hnow
  exact hnow.subset (List.mem_append_right _ List.mem_cons_self)

theorem moment_of_note {next : CommandQueue} (hmove : CommandQueue.Move ex.bus ex.queue next)
    (hfirst : ex.timeline <+: early)
    (hnow : early ++ [.reported report] <+: (ex.note next).timeline)
    (hreport : report.isDone = false) : ex.Moment early report := by
  rcases hmove.log_cases with hlog | ⟨other, hlog⟩ | ⟨reports, hlog, hdone⟩
  · rw [timeline_note_nil hlog, ← List.append_nil ex.timeline] at hnow
    cases mem_added hfirst hnow
  · rw [timeline_note_cons hlog] at hnow
    have hother := List.mem_singleton.1 (mem_added hfirst hnow)
    injection hother with hother
    subst hother
    have hlength := hnow.length_le
    simp only [List.length_append, List.length_singleton] at hlength
    exact ⟨hfirst.eq_of_length_le (by omega), next, hmove, hlog⟩
  · rw [timeline_note hlog] at hnow
    obtain ⟨other, hmem, hother⟩ := List.mem_map.1 (mem_added hfirst hnow)
    injection hother with hother
    subst hother
    rw [hdone other (List.mem_reverse.1 hmem)] at hreport
    cases hreport

section kept

variable {P : Exchange → Prop}
  (hmove : ∀ ex next, P ex → CommandQueue.Move ex.bus ex.queue next → P (ex.note next))

include hmove

theorem moment_of_effect (h : P ex) (heffect : ex.Effect next) (hfirst : ex.timeline <+: early)
    (hnow : early ++ [.reported report] <+: next.timeline) (hreport : report.isDone = false) :
    ∃ ex, P ex ∧ ex.Moment early report := by
  cases heffect with
  | quiet hstill =>
      rw [hstill.timeline, ← List.append_nil ex.timeline] at hnow
      cases mem_added hfirst hnow
  | publish event => cases List.mem_singleton.1 (mem_added hfirst hnow)
  | accept hopen hcame => cases List.mem_singleton.1 (mem_added hfirst hnow)
  | send request hheld =>
      change _ <+: ex.timeline at hnow
      rw [← List.append_nil ex.timeline] at hnow
      cases mem_added hfirst hnow
  | @refuse job error hcoming hrefusal =>
      have hlog : (ex.queue.conclude job (.error error)).log =
          .done ex.queue.now job.ticket (.error error) :: ex.queue.log := rfl
      change _ <+: (ex.note _).timeline at hnow
      rw [timeline_note_cons hlog] at hnow
      have hother := List.mem_singleton.1 (mem_added hfirst hnow)
      injection hother with hother
      rw [hother] at hreport
      cases hreport
  | move hnext =>
      obtain ⟨_, moved, hmoved, rfl⟩ := CommandQueue.exists_of_move? hnext
      change _ <+: (ex.note moved).timeline at hnow
      rcases CommandQueue.moves_of_proceed? hmoved with hone | ⟨middle, _, _, hone, htwo⟩
      · exact ⟨ex, h, moment_of_note hone hfirst hnow hreport⟩
      · -- The report stands in the part of the timeline that one of the two moves has added.
        obtain ⟨reports, hreports⟩ := hone.exists_log
        obtain ⟨more, hmore⟩ := htwo.exists_log
        rw [← note_note hreports hmore] at hnow
        have hbegin : (ex.note middle).timeline <+: ((ex.note middle).note moved).timeline :=
          List.prefix_append _ _
        rcases List.prefix_or_prefix_of_prefix hnow hbegin with hin | hbefore
        · exact ⟨ex, h, moment_of_note hone hfirst hin hreport⟩
        · rcases List.prefix_concat_iff.1 hbefore with hin | hbefore
          · exact ⟨ex, h, moment_of_note hone hfirst (hin ▸ List.prefix_refl _) hreport⟩
          · exact ⟨_, hmove ex middle h hone, moment_of_note htwo hbefore hnow hreport⟩

/-- What a run reports of a command that it takes up or sends, it reports at some moment, and what
every act keeps holds then. -/
theorem moment_of_run (heffect : ∀ ex next, P ex → ex.Effect next → P next)
    {capacity txDelay : Nat} {earlier : List Event} {outlet : Outlet}
    (h : P (start capacity txDelay earlier outlet)) {acts : List Act}
    (htimeline : ((start capacity txDelay earlier outlet).run acts).timeline =
      early ++ .reported report :: late) (hreport : report.isDone = false) :
    ∃ ex, P ex ∧ ex.Moment early report := by
  have hend : early ++ [.reported report] <+:
      ((start capacity txDelay earlier outlet).run acts).timeline :=
    ⟨late, by rw [htimeline, List.append_assoc, List.singleton_append]⟩
  have hbegin : (start capacity txDelay earlier outlet).timeline <+: early := by
    rcases List.prefix_or_prefix_of_prefix hend (timeline_prefix_run _ acts) with hin | hbefore
    · have hmem := hin.subset (List.mem_append_right early List.mem_cons_self)
      obtain ⟨event, _, hevent⟩ := List.mem_map.1 hmem
      cases hevent
    · refine (List.prefix_concat_iff.1 hbefore).resolve_left ?_
      intro hin
      have hmem : .reported report ∈ (start capacity txDelay earlier outlet).timeline := by
        rw [hin]
        exact List.mem_append_right early List.mem_cons_self
      obtain ⟨event, _, hevent⟩ := List.mem_map.1 hmem
      cases hevent
  clear htimeline
  generalize start capacity txDelay earlier outlet = ex at h hend hbegin
  induction acts generalizing ex with
  | nil =>
      have hlength := Nat.le_trans hend.length_le hbegin.length_le
      simp only [List.length_append, List.length_singleton] at hlength
      omega
  | cons act rest ih =>
      have hnext := ex.step_effect act
      have hrest := timeline_prefix_run (ex.step act) rest
      rcases List.prefix_or_prefix_of_prefix hend hrest with hin | hbefore
      · exact moment_of_effect hmove h hnext hbegin hin hreport
      · rcases List.prefix_concat_iff.1 hbefore with hin | hbefore
        · exact moment_of_effect hmove h hnext hbegin (hin ▸ List.prefix_refl _) hreport
        · exact ih _ (heffect _ _ h hnext) hend hbefore

end kept

/-! ## What the books say of a moment -/

/-- Only one command was accepted under a ticket. -/
theorem Sound.accepted_unique (h : ex.Sound) {job other : Job} (hjob : .accepted job ∈ ex.timeline)
    (hother : .accepted other ∈ ex.timeline) (hticket : other.ticket = job.ticket) :
    other = job := by
  obtain ⟨taken, sendings, result?, hstory, _⟩ := h.told hjob
  have hmem := accepted_mem_story hother
  rw [hticket, hstory] at hmem
  have hrequest := eq_of_accepted_mem_course hmem
  cases job
  cases other
  simp_all

/-- Nothing was reported of a command that waits in its lane. -/
theorem Sound.unreported (h : ex.Sound) {job : Job}
    (hjob : job ∈ ex.queue.high ++ ex.queue.low) (hreport : .reported report ∈ ex.timeline) :
    report.ticket ≠ job.ticket := by
  intro hticket
  have hentry : job.entry ∈ ex.entries :=
    List.mem_append_right _ (List.mem_append_right _ (List.mem_map_of_mem hjob))
  have hstory := (h.ledger.told _ hentry).2
  have hmem := deed_mem_story hreport
  change story job.ticket ex.timeline = _ at hstory
  rw [hticket, hstory] at hmem
  exact report.deed_ne_accepted _ (List.mem_singleton.1 hmem)

/-- A command that was accepted and is not over was accepted before everything else that is told of
it. -/
theorem Sound.accepted_of_unfinished (h : ex.Sound) {job : Job}
    (hjob : job ∈ ex.queue.unfinished) : .accepted job ∈ ex.timeline := by
  rw [← CommandQueue.map_fst_entries] at hjob
  obtain ⟨entry, hentry, rfl⟩ := List.mem_map.1 hjob
  have hstory := (h.ledger.told _ (List.mem_append_right _ hentry)).2
  have hown : ∃ taken sendings,
      entry.2 = SendRequest.course entry.1.request taken sendings none := by
    rcases List.mem_append.1 hentry with hhand | hlane
    · obtain ⟨sending, _, rfl⟩ := List.mem_map.1 hhand
      exact ⟨_, _, rfl⟩
    · obtain ⟨job, _, rfl⟩ := List.mem_map.1 hlane
      exact ⟨_, _, rfl⟩
  obtain ⟨taken, sendings, hcourse⟩ := hown
  refine accepted_of_mem_story ?_
  rw [hstory, hcourse]
  simp [SendRequest.course]

/-- A command that was taken up or sent is at hand or has got its result since. -/
theorem Sound.done_since (h : ex.Sound) {before since : List Happening}
    (htimeline : ex.timeline = before ++ .reported report :: since)
    (hreport : report.isDone = false)
    (hother : ∀ sending, ex.queue.phase.sending? = some sending →
      sending.job.ticket ≠ report.ticket) :
    ∃ time result, .reported (.done time report.ticket result) ∈ since := by
  have hmem : .reported report ∈ ex.timeline := by
    rw [htimeline]
    exact List.mem_append_right _ List.mem_cons_self
  have hdeed := deed_mem_story hmem
  have hover : Over (story report.ticket ex.timeline) := by
    refine h.ledger.finished _ (h.ledger.lt_issued hdeed) ?_
    intro entry hentry hticket
    rcases List.mem_append.1 hentry with hcoming | hqueue
    · obtain ⟨job, _, rfl⟩ := List.mem_map.1 hcoming
      have hstory := (h.ledger.told _ hentry).2
      rw [hticket] at hstory
      rw [hstory] at hdeed
      cases hdeed
    · rcases List.mem_append.1 hqueue with hhand | hlane
      · obtain ⟨sending, hsending, rfl⟩ := List.mem_map.1 hhand
        exact hother sending (Option.mem_toList.1 hsending) hticket
      · obtain ⟨job, hjob, rfl⟩ := List.mem_map.1 hlane
        exact h.unreported hjob hmem hticket.symm
  rw [htimeline, List.append_cons, story_append, story_append, story_reported,
    List.append_assoc, List.singleton_append] at hover
  obtain ⟨result, hdone⟩ := hover.done_mem (Report.deed_ne_done hreport)
  obtain ⟨time, hmem⟩ := done_of_mem_story hdone
  exact ⟨time, result, hmem⟩

/-- When one command is taken up or sent, every other one that was before has got its result. -/
theorem Moment.done_since {before since : List Happening} {other : Report} (hsound : ex.Sound)
    (h : ex.Moment (before ++ .reported other :: since) report) (hreport : report.isDone = false)
    (hother : other.isDone = false) (hticket : other.ticket ≠ report.ticket) :
    ∃ time result, .reported (.done time other.ticket result) ∈ since := by
  refine hsound.done_since h.timeline hother ?_
  intro sending hhand
  obtain ⟨next, hmove, hlog⟩ := h.move
  rcases hmove.picks_or_sends hlog hreport with ⟨hidle, _⟩ | ⟨current, hphase, _, rfl⟩
  · rw [hidle] at hhand
    cases hhand
  · rw [hphase] at hhand
    obtain rfl := Option.some.inj hhand
    exact hticket.symm

end Exchange

end PanelBus
