import PanelBus.Proofs.Gateway.History
import PanelBus.Proofs.Registry.Calls
/-!
# Commands of expressions

Main statement: `issued_bounded`.  Commands that expressions issue wait in line while those before
them are put in, and what they issue in turn goes to the end of the line.  The line may grow faster
than it is worked off, but after `maxIssued` commands it can only shrink.
-/

namespace PanelBus.Gateway

/-! ## The line -/

/-- The commands that expressions have issued since the last look, oldest first. -/
def issued (gateway : Gateway) : List DeviceCommand := gateway.takeIssued.1

/-- A gateway that carries out the commands of expressions. -/
structure Draining where
  /-- The gateway, the commands that it issues taken off it. -/
  gateway : Gateway
  /-- The commands in line, the next one first. -/
  waiting : List DeviceCommand
  /-- The commands that were put in. -/
  submitted : List DeviceCommand
  /-- The commands that were given up. -/
  dropped : List DeviceCommand
  /-- All commands that ever came into line. -/
  queued : List DeviceCommand
  bounded : submitted.length ≤ maxIssued

namespace Draining

variable {draining next last : Draining}

/-- The line that an operation leaves. -/
def start (gateway : Gateway) : Draining where
  gateway := gateway.takeIssued.2
  waiting := gateway.issued
  submitted := []
  dropped := []
  queued := gateway.issued
  bounded := Nat.zero_le maxIssued

/-- The first command in line is put in, and what it issues comes to the end of the line.  Once
`maxIssued` commands were put in, it is given up as it is. -/
def next? (draining : Draining) : Option Draining :=
  match draining.waiting with
  | [] => none
  | command :: rest =>
    if hfull : draining.submitted.length = maxIssued then
      some { draining with waiting := rest, dropped := draining.dropped ++ [command] }
    else
      let after := (draining.gateway.submit command).2
      some
        { gateway := after.takeIssued.2
          waiting := rest ++ after.issued
          submitted := draining.submitted ++ [command]
          dropped := draining.dropped
          queued := draining.queued ++ after.issued
          bounded := by
            have hroom := Nat.lt_of_le_of_ne draining.bounded hfull
            rw [List.length_append]
            exact hroom }

/-- One step of the line. -/
def Step (draining next : Draining) : Prop := draining.next? = some next

/-- A step gives up the first command, or puts it in. -/
theorem Step.cases (h : draining.Step next) :
    ∃ command rest, draining.waiting = command :: rest ∧
      ((draining.submitted.length = maxIssued ∧
          next = { draining with waiting := rest, dropped := draining.dropped ++ [command] }) ∨
        (draining.submitted.length < maxIssued ∧
          next.gateway = (draining.gateway.submit command).2.takeIssued.2 ∧
          next.waiting = rest ++ (draining.gateway.submit command).2.issued ∧
          next.submitted = draining.submitted ++ [command] ∧ next.dropped = draining.dropped ∧
          next.queued = draining.queued ++ (draining.gateway.submit command).2.issued)) := by
  unfold Step next? at h
  split at h
  · cases h
  · next command rest hwaiting =>
    refine ⟨command, rest, hwaiting, ?_⟩
    split at h
    · next hfull => exact .inl ⟨hfull, (Option.some.inj h).symm⟩
    · next hroom =>
      obtain rfl := Option.some.inj h
      exact .inr ⟨Nat.lt_of_le_of_ne draining.bounded hroom, rfl, rfl, rfl, rfl, rfl⟩

theorem next?_eq_none_iff : draining.next? = none ↔ draining.waiting = [] := by
  unfold next?
  split
  · next hwaiting => exact iff_of_true rfl hwaiting
  · next hwaiting =>
    rw [hwaiting]
    split <;> exact iff_of_false nofun nofun

/-! ### Termination -/

/-- How many commands can still be put in, then how many are in line. -/
def measure (draining : Draining) : Nat × Nat :=
  (maxIssued - draining.submitted.length, draining.waiting.length)

theorem Step.measure_lt (h : draining.Step next) :
    Prod.Lex (· < ·) (· < ·) next.measure draining.measure := by
  obtain ⟨command, rest, hwaiting, ⟨-, rfl⟩ | ⟨hroom, -, -, hsubmitted, -⟩⟩ := h.cases
  · apply Prod.Lex.right
    rw [hwaiting]
    exact Nat.lt_succ_self rest.length
  · apply Prod.Lex.left
    rw [hsubmitted, List.length_append, List.length_singleton]
    omega

theorem wellFounded_step : WellFounded fun next draining : Draining => draining.Step next :=
  Subrelation.wf (fun h => h.measure_lt)
    (InvImage.wf measure (WellFounded.prod_lex Nat.lt_wfRel.wf Nat.lt_wfRel.wf))

/-- The line is worked off. -/
theorem exists_last (draining : Draining) :
    ∃ last, Relation.ReflTransGen Step draining last ∧ last.waiting = [] := by
  induction draining using wellFounded_step.induction with
  | _ draining ih =>
      cases hnext : draining.next? with
      | none => exact ⟨draining, .refl, next?_eq_none_iff.1 hnext⟩
      | some next =>
          obtain ⟨last, hlast, hdone⟩ := ih next hnext
          exact ⟨last, .head hnext hlast, hdone⟩

/-! ### What a step preserves -/

/-- Every command that came into line was put in, was given up or is still in line, in this order,
and none was given up before `maxIssued` were put in. -/
structure Ordered (draining : Draining) : Prop where
  queued : draining.queued = draining.submitted ++ draining.dropped ++ draining.waiting
  full : draining.dropped ≠ [] → draining.submitted.length = maxIssued
  taken : draining.gateway.session.calls = []

theorem ordered_start (gateway : Gateway) : (start gateway).Ordered where
  queued := rfl
  full := fun h => absurd rfl h
  taken := rfl

theorem Ordered.step (h : draining.Ordered) (hstep : draining.Step next) : next.Ordered := by
  obtain ⟨command, rest, hwaiting, ⟨hfull, rfl⟩ |
    ⟨hroom, hgateway, hrest, hsubmitted, hdropped, hqueued⟩⟩ := hstep.cases
  · refine ⟨?_, fun _ => hfull, h.taken⟩
    rw [h.queued, hwaiting]
    simp only [List.append_assoc, List.singleton_append]
  · have hnone : draining.dropped = [] := by
      by_contra hsome
      exact absurd (h.full hsome) (Nat.ne_of_lt hroom)
    refine ⟨?_, ?_, ?_⟩
    · rw [hqueued, hsubmitted, hdropped, hrest, h.queued, hwaiting, hnone]
      simp only [List.append_assoc, List.nil_append, List.append_nil, List.cons_append]
    · rw [hdropped]
      exact fun hsome => absurd hnone hsome
    · rw [hgateway]
      rfl

/-- The gateway in the end. -/
def final (draining : Draining) : Gateway :=
  runIssued (maxIssued - draining.submitted.length) draining.waiting draining.gateway

/-- The commands that will have been put in in the end. -/
def carriedOut (draining : Draining) : List (Option DeviceCommand) :=
  draining.submitted.map some ++
    (issuedDeeds (maxIssued - draining.submitted.length) draining.waiting draining.gateway).map
      Deed.command?

theorem Step.final_eq (h : draining.Step next) :
    next.final = draining.final ∧ next.carriedOut = draining.carriedOut := by
  unfold final carriedOut
  obtain ⟨command, rest, hwaiting, ⟨hfull, rfl⟩ |
    ⟨hroom, hgateway, hrest, hsubmitted, -, -⟩⟩ := h.cases
  · dsimp only
    rw [hfull, Nat.sub_self]
    exact ⟨rfl, rfl⟩
  · obtain ⟨left, hleft⟩ : ∃ left, maxIssued - draining.submitted.length = left + 1 :=
      Nat.exists_eq_succ_of_ne_zero (Nat.sub_ne_zero_of_lt hroom)
    have hnext : maxIssued - next.submitted.length = left := by
      rw [hsubmitted, List.length_append, List.length_singleton]
      omega
    rw [hnext, hleft, hwaiting, hrest, hgateway, hsubmitted, runIssued_cons, issuedDeeds_cons,
      List.map_append, List.map_cons, List.append_assoc]
    exact ⟨rfl, rfl⟩

/-! ### The whole run -/

theorem ordered_of_run (h : Relation.ReflTransGen Step draining last)
    (hordered : draining.Ordered) : last.Ordered := by
  induction h with
  | refl => exact hordered
  | tail _ hstep ih => exact ih.step hstep

theorem final_of_run (h : Relation.ReflTransGen Step draining last) :
    last.final = draining.final ∧ last.carriedOut = draining.carriedOut := by
  induction h with
  | refl => exact ⟨rfl, rfl⟩
  | tail _ hstep ih =>
      obtain ⟨hfinal, hcarried⟩ := hstep.final_eq
      exact ⟨hfinal.trans ih.1, hcarried.trans ih.2⟩

/-- Nothing is left to do for an empty line. -/
theorem final_of_empty (h : draining.waiting = []) :
    draining.final = draining.gateway ∧ draining.carriedOut = draining.submitted.map some := by
  unfold final carriedOut
  rw [h]
  cases maxIssued - draining.submitted.length <;> exact ⟨rfl, List.append_nil _⟩

theorem Ordered.split (h : draining.Ordered) (hempty : draining.waiting = []) :
    draining.submitted = draining.queued.take maxIssued ∧
      draining.dropped = draining.queued.drop maxIssued := by
  have hqueued := h.queued
  rw [hempty, List.append_nil] at hqueued
  by_cases hnone : draining.dropped = []
  · rw [hnone, List.append_nil] at hqueued
    rw [hqueued, hnone, List.take_of_length_le draining.bounded,
      List.drop_eq_nil_of_le draining.bounded]
    exact ⟨rfl, rfl⟩
  · have hfull := h.full hnone
    rw [hqueued, List.take_left' hfull, List.drop_left' hfull]
    exact ⟨rfl, rfl⟩

/-- The line that an operation leaves is worked off, and the gateway then is the one that
`finishIssued` gives. -/
theorem exists_run (gateway : Gateway) :
    ∃ last, Relation.ReflTransGen Step (start gateway) last ∧ last.waiting = [] ∧
      last.Ordered ∧ last.gateway = gateway.finishIssued ∧
        gateway.finishDeeds.map Deed.command? = last.submitted.map some := by
  obtain ⟨last, hrun, hempty⟩ := (start gateway).exists_last
  obtain ⟨hfinal, hcarried⟩ := final_of_run hrun
  obtain ⟨hlast, hall⟩ := last.final_of_empty hempty
  refine ⟨last, hrun, hempty, ordered_of_run hrun (ordered_start gateway), ?_, ?_⟩
  · rw [← hlast, hfinal]
    rfl
  · rw [← hall, hcarried]
    rfl

end Draining

/-! ## Operations -/

/-- The gateway when an operation has done what it is for, and only commands of expressions are
left. -/
def upTo (gateway : Gateway) : Act → Gateway
  | .push chunk =>
    let (frames, assembler) := gateway.assembler.push chunk gateway.now
    ({ gateway with assembler }.dispatchAll frames).2
  | .command command => (gateway.submit command).2
  | act => gateway.perform act

/-- The deeds of an operation without those of commands of expressions. -/
def ownDeeds (gateway : Gateway) : Act → List Deed
  | .push chunk =>
    let (frames, assembler) := gateway.assembler.push chunk gateway.now
    { gateway with assembler }.frameDeeds frames
  | .command command => [gateway.commandDeed command]
  | _ => []

variable {gateway : Gateway}

theorem finish_of_no_calls (h : gateway.session.calls = []) :
    gateway.finishIssued = gateway ∧ gateway.finishDeeds = [] := by
  have hissued : gateway.takeIssued.1 = [] := by
    unfold takeIssued
    rw [h]
    rfl
  have hgateway : gateway.takeIssued.2 = gateway := by
    unfold takeIssued
    rw [← h]
  unfold finishIssued finishDeeds
  rw [← Prod.eta gateway.takeIssued, hissued, hgateway]
  exact ⟨rfl, rfl⟩

theorem calls_finishIssued (gateway : Gateway) : gateway.finishIssued.session.calls = [] := by
  obtain ⟨last, -, -, hordered, hlast, -⟩ := Draining.exists_run gateway
  rw [← hlast]
  exact hordered.taken

/-- Every operation ends with the commands of expressions, and leaves none of them. -/
theorem perform_spec (h : gateway.session.calls = []) (act : Act) :
    (gateway.perform act).session.calls = [] ∧
      gateway.perform act = (gateway.upTo act).finishIssued ∧
      gateway.deeds act = gateway.ownDeeds act ++ (gateway.upTo act).finishDeeds := by
  have hquiet : ∀ next : Gateway, next.session = gateway.session →
      next.session.calls = [] ∧ next = next.finishIssued ∧ [] = [] ++ next.finishDeeds := by
    intro next hsame
    have hcalls : next.session.calls = [] := by rw [hsame, h]
    obtain ⟨hgateway, hdeeds⟩ := finish_of_no_calls hcalls
    exact ⟨hcalls, hgateway.symm, hdeeds.symm⟩
  cases act with
  | push chunk => exact ⟨calls_finishIssued _, rfl, rfl⟩
  | command command => exact ⟨calls_finishIssued _, rfl, rfl⟩
  | shutdown => exact hquiet _ rfl
  | turn => exact hquiet _ rfl
  | settle => exact hquiet _ rfl
  | advance ms => exact hquiet _ rfl

theorem calls_ofConfig {config : GatewayConfig} {budget : Expr.Budget}
    (h : ofConfig config budget = .ok gateway) : gateway.session.calls = [] := by
  obtain ⟨line, registry, session, -, hopened, rfl⟩ := exists_of_ofConfig h
  have hcalls := Registry.calls_registerAll
    { env := { base := line.rx.header.length, hosts := [(commandHostName, commandHost)] } }
    config.entities { engine := { budget } }
  exact (congrArg (fun opened => opened.2.calls) hopened).symm.trans hcalls

theorem calls_performAll {config : GatewayConfig} {budget : Expr.Budget}
    (h : ofConfig config budget = .ok gateway) (acts : List Act) :
    (gateway.performAll acts).session.calls = [] := by
  have hstep : ∀ acts : List Act, ∀ gateway : Gateway, gateway.session.calls = [] →
      (gateway.performAll acts).session.calls = [] := by
    intro acts
    induction acts with
    | nil => exact fun _ hcalls => hcalls
    | cons act rest ih => exact fun gateway hcalls => ih _ (perform_spec hcalls act).1
  exact hstep acts gateway (calls_ofConfig h)

/-! ## The order of the line -/

theorem issued_prefix {next : Gateway} (h : gateway.session.calls <+: next.session.calls) :
    gateway.issued <+: next.issued := h.filterMap _

theorem issued_prefix_dispatch (gateway : Gateway) (frame : Bytes) :
    gateway.issued <+: (gateway.dispatch frame).2.issued := by
  apply issued_prefix
  have hcalls := gateway.registry.adds_dispatch frame gateway.session
  unfold dispatch
  generalize (gateway.registry.dispatch frame).run gateway.session = dispatched at hcalls
  obtain ⟨⟨changes, registry⟩, session⟩ := dispatched
  dsimp only at hcalls ⊢
  split <;> exact hcalls

/-- A command is evaluated at most for its frame. -/
theorem session_submit (gateway : Gateway) (command : DeviceCommand) :
    (gateway.submit command).2.session = gateway.session ∨
      (gateway.submit command).2.session = (gateway.frame command).2.session := by
  unfold submit
  cases gateway.registry.find? command.deviceId with
  | none => exact .inl rfl
  | some device =>
      right
      dsimp only
      generalize gateway.frame command = framed
      obtain ⟨frame, after⟩ := framed
      dsimp only
      split
      · rfl
      · cases frame with
        | error reason => rfl
        | ok frame =>
            dsimp only
            rw [applyOptimistic_eq]

theorem issued_prefix_submit (gateway : Gateway) (command : DeviceCommand) :
    gateway.issued <+: (gateway.submit command).2.issued := by
  apply issued_prefix
  rcases gateway.session_submit command with hsame | hframe
  · rw [hsame]
  · rw [hframe]
    exact gateway.registry.adds_payload? command.deviceId command.command command.value?
      gateway.session

/-- From deed to deed, down to the last gateway, commands come into line only at its end. -/
def OnlyAppends (gateway : Gateway) (deeds : List Deed) (last : Gateway) : Prop :=
  (gateway.issued :: (deeds.map fun deed => deed.after.issued) ++ [last.issued]).Pairwise (· <+: ·)

theorem onlyAppends_frameDeeds (gateway : Gateway) (frames : List Bytes) :
    OnlyAppends gateway (gateway.frameDeeds frames) (gateway.dispatchAll frames).2 := by
  unfold OnlyAppends
  rw [← List.isChain_iff_pairwise]
  induction frames generalizing gateway with
  | nil => exact .cons_cons List.prefix_rfl (.singleton _)
  | cons frame rest ih => exact .cons_cons (gateway.issued_prefix_dispatch frame) (ih _)

theorem onlyAppends_ownDeeds (gateway : Gateway) (act : Act) :
    OnlyAppends gateway (gateway.ownDeeds act) (gateway.upTo act) := by
  have hquiet : ∀ next : Gateway, next.issued = gateway.issued → OnlyAppends gateway [] next := by
    intro next hsame
    unfold OnlyAppends
    rw [← List.isChain_iff_pairwise, hsame]
    exact .cons_cons List.prefix_rfl (.singleton _)
  cases act with
  | push chunk =>
      let given : Gateway :=
        { gateway with assembler := (gateway.assembler.push chunk gateway.now).2 }
      exact onlyAppends_frameDeeds given (gateway.assembler.push chunk gateway.now).1
  | command command =>
      unfold OnlyAppends
      rw [← List.isChain_iff_pairwise]
      exact .cons_cons (gateway.issued_prefix_submit command)
        (.cons_cons List.prefix_rfl (.singleton _))
  | shutdown => exact hquiet _ rfl
  | turn => exact hquiet _ rfl
  | settle => exact hquiet _ rfl
  | advance ms => exact hquiet _ rfl

/-! ## The bound -/

/-- Whatever a gateway has done and does next, no command of an expression is left afterwards.  The
line that the operation leaves, in the order in which the commands were issued, is worked off in
finitely many steps: its first `maxIssued` commands are put in, each once and in that order, those
that they issue in turn at the end of the line, and all others are given up without a deed. -/
theorem issued_bounded {config : GatewayConfig} {budget : Expr.Budget} {opened : Gateway}
    (h : ofConfig config budget = .ok opened) (acts : List Act) (act : Act) :
    let gateway := opened.performAll acts
    let left := gateway.upTo act
    gateway.issued = [] ∧ (gateway.perform act).issued = [] ∧
    OnlyAppends gateway (gateway.ownDeeds act) left ∧
    gateway.deeds act = gateway.ownDeeds act ++ left.finishDeeds ∧
    (WellFounded fun next draining : Draining => draining.Step next) ∧
    ∃ last, Relation.ReflTransGen Draining.Step (.start left) last ∧ last.waiting = [] ∧
      last.gateway = gateway.perform act ∧
      left.finishDeeds.map Deed.command? = last.submitted.map some ∧
      last.submitted = last.queued.take maxIssued ∧ last.dropped = last.queued.drop maxIssued ∧
      last.submitted.length ≤ 16 := by
  intro gateway left
  have hcalls : gateway.session.calls = [] := calls_performAll h acts
  obtain ⟨hafter, hgateway, hdeeds⟩ := perform_spec hcalls act
  obtain ⟨last, hrun, hempty, hordered, hlast, hsubmitted⟩ := Draining.exists_run left
  obtain ⟨htaken, hdropped⟩ := hordered.split hempty
  refine ⟨?_, ?_, onlyAppends_ownDeeds gateway act, hdeeds, Draining.wellFounded_step, last, hrun,
    hempty, hlast.trans hgateway.symm, hsubmitted, htaken, hdropped, last.bounded⟩
  · exact congrArg (List.filterMap fun call => DeviceCommand.ofArgs? call.args) hcalls
  · exact congrArg (List.filterMap fun call => DeviceCommand.ofArgs? call.args) hafter

/-- A lamp whose command to go on is computed. -/
def computedLamp (id source : String) : Entity where
  common := { id, state? := some { data := [0x0e] } }
  features := .light { turnOn? := some { lambda? := some source } }

/-- Two lamps, each of which switches the other on twice whenever it is switched on. -/
def echoConfig : GatewayConfig where
  settings := { rxHeader := [0xf7], rxLength? := some 4, txHeader := [0xf7] }
  entities :=
    [computedLamp "left" "command('right', 'on') && command('right', 'on') ? [1] : []",
      computedLamp "right" "command('left', 'on') && command('left', 'on') ? [1] : []"]

theorem issued_bounded_echo :
    let act : Act := .command ⟨"left", "on", none⟩
    ∃ opened, ofConfig echoConfig {} = .ok opened ∧ (opened.upTo act).issued.length = 2 ∧
      ∃ last, Relation.ReflTransGen Draining.Step (.start (opened.upTo act)) last ∧
        last.gateway = opened.perform act ∧ last.submitted.length = 16 ∧ last.waiting = [] := by
  intro act
  have hopened : (ofConfig echoConfig {}).toOption.map (fun opened =>
      ((opened.upTo act).issued.length, (opened.upTo act).finishDeeds.length)) =
        some (2, 16) := by
    decide +kernel
  obtain ⟨opened, hconfig, hcounts⟩ := exists_of_toOption hopened
  obtain ⟨hissued, hdeeds⟩ := Prod.mk.inj hcounts
  obtain ⟨-, -, -, -, -, last, hrun, hempty, hlast, hsubmitted, -⟩ := issued_bounded hconfig [] act
  have hlength := congrArg List.length hsubmitted
  rw [List.length_map, List.length_map] at hlength
  exact ⟨opened, hconfig, hissued, last, hrun, hlast, hlength.symm.trans hdeeds, hempty⟩

end PanelBus.Gateway
