import PanelBus.Proofs.Sending.Exchange
/-!
# The story of a command

The story of a command is what a timeline says about its ticket.  A ledger lists the commands that
are not over yet, each with its story; every other ticket was not given out yet or belongs to a
command that is over.
-/

namespace PanelBus

/-- What can happen to a command. -/
inductive Deed where
  | accepted (request : SendRequest)
  | taken
  | sent (frame : Bytes)
  | done (result : CommandResult)

def Report.ticket : Report → Nat
  | .taken _ ticket | .sent _ ticket _ | .done _ ticket _ => ticket

def Report.deed : Report → Deed
  | .taken _ _ => .taken
  | .sent _ _ frame => .sent frame
  | .done _ _ result => .done result

/-- What is said about the command with that ticket. -/
def Happening.deed? (ticket : Nat) : Happening → Option Deed
  | .published _ => none
  | .accepted job => if job.ticket = ticket then some (.accepted job.request) else none
  | .reported report => if report.ticket = ticket then some report.deed else none

/-- All that is said about the command with that ticket, oldest first. -/
def story (ticket : Nat) (timeline : List Happening) : List Deed :=
  timeline.filterMap (Happening.deed? ticket)

section story

variable {ticket : Nat} {timeline more : List Happening} {job : Job} {report : Report}

@[simp] theorem story_append :
    story ticket (timeline ++ more) = story ticket timeline ++ story ticket more :=
  List.filterMap_append

@[simp] theorem story_published (event : Event) : story ticket [.published event] = [] := rfl

@[simp] theorem story_map_published (events : List Event) :
    story ticket (events.map .published) = [] := by
  induction events with
  | nil => rfl
  | cons event rest ih => exact ih

theorem story_accepted : story job.ticket [.accepted job] = [.accepted job.request] := by
  simp [story, Happening.deed?]

theorem story_accepted_ne (h : job.ticket ≠ ticket) : story ticket [.accepted job] = [] := by
  simp [story, Happening.deed?, h]

theorem story_reported : story report.ticket [.reported report] = [report.deed] := by
  simp [story, Happening.deed?]

theorem story_reported_ne (h : report.ticket ≠ ticket) :
    story ticket [.reported report] = [] := by
  simp [story, Happening.deed?, h]

theorem accepted_mem_story (h : .accepted job ∈ timeline) :
    .accepted job.request ∈ story job.ticket timeline :=
  List.mem_filterMap.2 ⟨_, h, by simp [Happening.deed?]⟩

end story

/-- The story of a command that is taken into its lane, perhaps out of it, then sent so many times
and perhaps brought to an end. -/
def SendRequest.course (request : SendRequest) (taken : Bool) (sendings : Nat)
    (result? : Option CommandResult) : List Deed :=
  [.accepted request] ++ (if taken then [.taken] else []) ++
    List.replicate sendings (.sent request.frame) ++ result?.toList.map .done

/-- The result that a command may have after so many sendings. -/
def SendRequest.Earns (request : SendRequest) (sendings : Nat) : CommandResult → Prop
  | .ok n => n = sendings ∧ 1 ≤ sendings ∧ sendings ≤ request.retry.total
  | .error (.unconfirmed n) => n = sendings ∧ sendings = request.retry.total
  | .error .stopped => sendings ≤ request.retry.total
  | .error _ => False

theorem SendRequest.Earns.le_total {request : SendRequest} {sendings : Nat}
    {result : CommandResult} (h : request.Earns sendings result) :
    sendings ≤ request.retry.total := by
  unfold Earns at h
  split at h
  · exact h.2.2
  · exact Nat.le_of_eq h.2
  · exact h
  · exact h.elim

/-- The story of a command that is over: it was refused, or it has the result that it earned. -/
def Over (deeds : List Deed) : Prop :=
  (∃ error, deeds = [.done (.error error)]) ∨
    ∃ request taken sendings result,
      deeds = SendRequest.course request taken sendings (some result) ∧
        request.Earns sendings result

section course

variable (request : SendRequest) (taken : Bool) (sendings : Nat) (result : CommandResult)

theorem course_sent : request.course taken sendings none ++ [.sent request.frame] =
    request.course taken (sendings + 1) none := by
  simp [SendRequest.course, List.replicate_succ']

theorem course_done : request.course taken sendings none ++ [.done result] =
    request.course taken sendings (some result) := by
  simp [SendRequest.course]

theorem eq_of_accepted_mem_course {request other : SendRequest} {taken : Bool} {sendings : Nat}
    {result? : Option CommandResult}
    (h : .accepted other ∈ request.course taken sendings result?) : request = other := by
  cases taken <;> simp [SendRequest.course] at h <;> exact h.symm

/-- A story begins when the command is accepted. -/
theorem eq_nil_of_append_accepted {request other : SendRequest} {taken : Bool} {sendings : Nat}
    {result? : Option CommandResult} {deeds more : List Deed}
    (h : deeds ++ .accepted other :: more = request.course taken sendings result?) :
    deeds = [] := by
  cases deeds with
  | nil => rfl
  | cons deed rest =>
      unfold SendRequest.course at h
      rw [List.append_assoc, List.append_assoc, List.singleton_append, List.cons_append] at h
      have hmem : .accepted other ∈ rest ++ .accepted other :: more :=
        List.mem_append_right rest List.mem_cons_self
      rw [(List.cons.inj h).2] at hmem
      cases taken <;> simp at hmem

end course

/-- The commands that are not over and their stories are the entries; `issued` tickets were given
out. -/
structure Ledger (entries : List (Job × List Deed)) (issued : Nat) (timeline : List Happening) :
    Prop where
  distinct : (entries.map fun entry => entry.1.ticket).Nodup
  told : ∀ entry ∈ entries, entry.1.ticket < issued ∧ story entry.1.ticket timeline = entry.2
  fresh : ∀ ticket, issued ≤ ticket → story ticket timeline = []
  finished : ∀ ticket < issued, (∀ entry ∈ entries, entry.1.ticket ≠ ticket) →
    Over (story ticket timeline)

namespace Ledger

variable {entries more : List (Job × List Deed)} {issued : Nat} {timeline : List Happening}
  {job : Job} {deeds : List Deed}

theorem perm (h : Ledger entries issued timeline) (hperm : entries.Perm more) :
    Ledger more issued timeline where
  distinct := (hperm.map _).nodup_iff.1 h.distinct
  told := fun entry hentry => h.told entry (hperm.mem_iff.2 hentry)
  fresh := h.fresh
  finished := fun ticket hticket hnone =>
    h.finished ticket hticket fun entry hentry => hnone entry (hperm.mem_iff.1 hentry)

theorem lt_issued (h : Ledger entries issued timeline) {ticket : Nat} {deed : Deed}
    (hdeed : deed ∈ story ticket timeline) : ticket < issued := by
  apply Nat.lt_of_not_le
  intro hle
  rw [h.fresh ticket hle] at hdeed
  cases hdeed

/-- Of what tells no story the ledger takes no notice. -/
theorem append (h : Ledger entries issued timeline) {happenings : List Happening}
    (hsilent : ∀ ticket, story ticket happenings = []) :
    Ledger entries issued (timeline ++ happenings) := by
  have hsame : ∀ ticket, story ticket (timeline ++ happenings) = story ticket timeline := by
    intro ticket
    rw [story_append, hsilent, List.append_nil]
  refine ⟨h.distinct, ?_, ?_, ?_⟩
  · intro entry hentry
    rw [hsame]
    exact h.told entry hentry
  · intro ticket hticket
    rw [hsame]
    exact h.fresh ticket hticket
  · intro ticket hticket hnone
    rw [hsame]
    exact h.finished ticket hticket hnone

theorem ne_of_mem (h : Ledger ((job, deeds) :: entries) issued timeline) :
    ∀ entry ∈ entries, job.ticket ≠ entry.1.ticket := by
  intro entry hentry heq
  have hdistinct := h.distinct
  rw [List.map_cons, List.nodup_cons] at hdistinct
  exact hdistinct.1 (List.mem_map.2 ⟨entry, hentry, heq.symm⟩)

/-- A ticket is given out. -/
theorem issue (h : Ledger entries issued timeline) (request : SendRequest) :
    Ledger ((⟨issued, request⟩, []) :: entries) (issued + 1) timeline where
  distinct := by
    rw [List.map_cons, List.nodup_cons]
    refine ⟨?_, h.distinct⟩
    intro hmem
    obtain ⟨entry, hentry, hticket⟩ := List.mem_map.1 hmem
    have hlt := (h.told entry hentry).1
    dsimp only at hticket
    omega
  told := by
    intro entry hentry
    rcases List.mem_cons.1 hentry with rfl | hentry
    · exact ⟨Nat.lt_succ_self _, h.fresh issued (Nat.le_refl _)⟩
    · obtain ⟨hlt, hstory⟩ := h.told entry hentry
      exact ⟨Nat.lt_succ_of_lt hlt, hstory⟩
  fresh := fun ticket hticket => h.fresh ticket (Nat.le_of_succ_le hticket)
  finished := by
    intro ticket hticket hnone
    have hne := hnone _ List.mem_cons_self
    dsimp only at hne
    refine h.finished ticket (by omega) ?_
    intro entry hentry
    exact hnone entry (List.mem_cons_of_mem _ hentry)

/-- The story of the first command goes on. -/
theorem tell (h : Ledger ((job, deeds) :: entries) issued timeline) {happening : Happening}
    {deed : Deed} (hself : story job.ticket [happening] = [deed])
    (hothers : ∀ ticket, job.ticket ≠ ticket → story ticket [happening] = []) :
    Ledger ((job, deeds ++ [deed]) :: entries) issued (timeline ++ [happening]) := by
  have hsame : ∀ ticket, job.ticket ≠ ticket →
      story ticket (timeline ++ [happening]) = story ticket timeline := by
    intro ticket hne
    rw [story_append, hothers ticket hne, List.append_nil]
  have hfirst := h.told _ List.mem_cons_self
  refine ⟨h.distinct, ?_, ?_, ?_⟩
  · intro entry hentry
    rcases List.mem_cons.1 hentry with rfl | hentry
    · refine ⟨hfirst.1, ?_⟩
      rw [story_append, hself, hfirst.2]
    · rw [hsame _ (h.ne_of_mem entry hentry)]
      exact h.told entry (List.mem_cons_of_mem _ hentry)
  · intro ticket hticket
    rw [hsame ticket (by have := hfirst.1; dsimp only at this; omega)]
    exact h.fresh ticket hticket
  · intro ticket hticket hnone
    have hne := hnone _ List.mem_cons_self
    rw [hsame ticket hne]
    refine h.finished ticket hticket ?_
    intro entry hentry
    rcases List.mem_cons.1 hentry with rfl | hentry
    · exact hne
    · exact hnone entry (List.mem_cons_of_mem _ hentry)

/-- The first command is over. -/
theorem close (h : Ledger ((job, deeds) :: entries) issued timeline) (hover : Over deeds) :
    Ledger entries issued timeline where
  distinct := by
    have hdistinct := h.distinct
    rw [List.map_cons, List.nodup_cons] at hdistinct
    exact hdistinct.2
  told := fun entry hentry => h.told entry (List.mem_cons_of_mem _ hentry)
  fresh := h.fresh
  finished := by
    intro ticket hticket hnone
    by_cases hself : job.ticket = ticket
    · rw [← hself, (h.told _ List.mem_cons_self).2]
      exact hover
    · refine h.finished ticket hticket ?_
      intro entry hentry
      rcases List.mem_cons.1 hentry with rfl | hentry
      · exact hself
      · exact hnone entry hentry

theorem tell_report (h : Ledger ((job, deeds) :: entries) issued timeline) (report : Report)
    (hticket : report.ticket = job.ticket) :
    Ledger ((job, deeds ++ [report.deed]) :: entries) issued (timeline ++ [.reported report]) := by
  refine h.tell ?_ ?_
  · rw [← hticket]
    exact story_reported
  · intro ticket hne
    exact story_reported_ne (hticket ▸ hne)

theorem tell_accepted (h : Ledger ((job, deeds) :: entries) issued timeline) :
    Ledger ((job, deeds ++ [.accepted job.request]) :: entries) issued
      (timeline ++ [.accepted job]) :=
  h.tell story_accepted fun _ hne => story_accepted_ne hne

/-- Several commands come to an end one after the other. -/
theorem close_all {closing : List (Job × List Deed)}
    (h : Ledger (closing ++ entries) issued timeline) (time : Nat) (result : CommandResult)
    (hover : ∀ entry ∈ closing, Over (entry.2 ++ [.done result])) :
    Ledger entries issued (timeline ++
      (closing.map fun entry => .done time entry.1.ticket result).map .reported) := by
  induction closing generalizing timeline with
  | nil => simpa using h
  | cons entry rest ih =>
      have hfirst := h.tell_report (.done time entry.1.ticket result) rfl
      have hrest := ih (hfirst.close (hover entry List.mem_cons_self))
        fun other hother => hover other (List.mem_cons_of_mem _ hother)
      rwa [List.append_assoc] at hrest

end Ledger

end PanelBus
