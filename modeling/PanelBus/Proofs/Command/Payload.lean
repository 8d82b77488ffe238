import PanelBus.Proofs.Command.Number
import PanelBus.Proofs.Registry.Startup
/-!
# Payloads of checked commands

The check before the start looks at commands one by one, a device looks them up by name, and the
octets of an argument come from a third place.  The three agree: what a device finds is what was
checked, and an argument fits the place that the check found for it, unless the end of that place is
too large for a word.
-/

namespace PanelBus

open Json (Value Fields)

/-! ## Octets in a template -/

namespace Bytes

variable {template patch payload : Bytes} {start : Nat}

/-- The payload is the template with other octets from `start` on. -/
structure Patched (template : Bytes) (start : Nat) (patch payload : Bytes) : Prop where
  fits : start + patch.length ≤ template.length
  length : payload.length = template.length
  outside : ∀ i, i < start ∨ start + patch.length ≤ i → payload[i]? = template[i]?
  inside : ∀ i, i < patch.length → payload[start + i]? = patch[i]?

theorem patched_of_fits (h : start + patch.length ≤ template.length) :
    Patched template start patch
      (template.take start ++ patch ++ template.drop (start + patch.length)) := by
  have hbefore : (template.take start).length = start := by
    rw [List.length_take]
    omega
  refine ⟨h, ?_, fun i hi => ?_, fun i hi => ?_⟩
  · simp only [List.length_append, hbefore, List.length_drop]
    omega
  · rw [List.append_assoc]
    rcases hi with hleft | hright
    · rw [List.getElem?_append_left (by omega), List.getElem?_take_of_lt hleft]
    · rw [List.getElem?_append_right (by omega), List.getElem?_append_right (by omega), hbefore,
        List.getElem?_drop]
      congr 1
      omega
  · rw [List.append_assoc, List.getElem?_append_right (by omega), hbefore, Nat.add_sub_cancel_left,
      List.getElem?_append_left hi]

theorem patched_of_overwrite? (h : template.overwrite? start patch = some payload) :
    Patched template start patch payload := by
  unfold overwrite? at h
  split at h
  · next hfits =>
    obtain rfl := Option.some.inj h
    exact patched_of_fits hfits
  · cases h

theorem overwrite?_eq_none_iff :
    template.overwrite? start patch = none ↔ template.length < start + patch.length := by
  unfold overwrite?
  split
  · next hfits => exact iff_of_false nofun (Nat.not_lt.2 hfits)
  · next hover => exact iff_of_true rfl (Nat.not_le.1 hover)

end Bytes

/-! ## Checked commands -/

namespace Command

variable {command : Command} {octets : Bytes} {name : String} {v : Value} {value? : Option Value}

theorem length_of_encode? (h : command.encode? v = some octets) :
    octets.length = command.width := by
  rw [encode?_eq] at h
  obtain ⟨x, -, h⟩ := Option.bind_eq_some_iff.1 h
  obtain ⟨written, hwritten, rfl⟩ := Option.map_eq_some_iff.1 h
  rw [ByteOrder.length_arrange]
  cases hcoding : command.coding with
  | binary =>
      rw [hcoding] at hwritten
      dsimp only at hwritten
      rcases le_or_gt (256 ^ command.width) x.roundWord with hlarge | hfits
      · rw [binaryOctets?_of_le hlarge] at hwritten
        cases hwritten
      · rw [binaryOctets?_of_lt hfits] at hwritten
        rw [← Option.some.inj hwritten, Bytes.length_ofNatBE]
  | bcd =>
      rw [hcoding] at hwritten
      obtain ⟨-, rfl⟩ := bcdOctets?_eq_some.1 hwritten
      exact Bcd.length_octets ..

/-- What the check sees to. -/
structure Fitting (command : Command) : Prop where
  given : command.data = [] → ∃ source, command.lambda? = some source
  length : 1 ≤ command.length ∧ command.length ≤ 4
  fits : ∀ offset, command.valueOffset? = some offset →
    (offset + command.length) % Word.count ≤ command.data.length

theorem fitting_of_fault? (h : command.fault? name = none) : command.Fitting := by
  unfold fault? at h
  split at h
  · cases h
  split at h
  · cases h
  next hempty hlength =>
  refine ⟨fun hdata => ?_, by omega, fun offset hoffset => ?_⟩
  · unfold isEmpty at hempty
    rw [hdata] at hempty
    cases hlambda : command.lambda? with
    | none => exact absurd (by rw [hlambda]; rfl) hempty
    | some source => exact ⟨source, rfl⟩
  · rw [hoffset] at h
    dsimp only at h
    split at h
    · cases h
    · omega

/-- The place for the argument does not lie within the template. -/
def Overruns (command : Command) : Prop :=
  ∃ offset, command.valueOffset? = some offset ∧ command.data.length < offset + command.length

theorem overruns_iff {offset : Nat} (h : command.valueOffset? = some offset) :
    command.Overruns ↔ command.data.length < offset + command.length := by
  refine ⟨?_, fun hover => ⟨offset, h, hover⟩⟩
  rintro ⟨other, hother, hover⟩
  obtain rfl := Option.some.inj (h.symm.trans hother)
  exact hover

/-- A place that passes the check lies within the template, unless its end is no word. -/
theorem Fitting.exceeds_of_overruns (h : command.Fitting) (hover : command.Overruns) :
    ∃ offset, command.valueOffset? = some offset ∧ Word.count ≤ offset + command.length := by
  obtain ⟨offset, hoffset, hover⟩ := hover
  refine ⟨offset, hoffset, ?_⟩
  by_contra hword
  have hfits := h.fits offset hoffset
  rw [Nat.mod_eq_of_lt (by omega)] at hfits
  omega

/-- The payload that the template of the command makes with the argument. -/
structure Made (command : Command) (value? : Option Value) (payload : Bytes) : Prop where
  length : payload.length = command.data.length
  plain : command.valueOffset? = none → payload = command.data
  filled : ∀ offset, command.valueOffset? = some offset →
    ∃ v octets, value? = some v ∧ command.encode? v = some octets ∧
      octets.length = command.length ∧ command.data.Patched offset octets payload

theorem fillTemplate?_of_plain (h : command.valueOffset? = none) :
    command.fillTemplate? value? = some command.data := by
  unfold fillTemplate?
  rw [h]

theorem fillTemplate?_of_offset {offset : Nat} (h : command.valueOffset? = some offset) :
    command.fillTemplate? value? =
      (value?.bind command.encode?).bind (command.data.overwrite? offset) := by
  unfold fillTemplate?
  rw [h]
  cases value? <;> rfl

theorem Fitting.length_of_encode? (h : command.Fitting)
    (hencode : command.encode? v = some octets) :
    octets.length = command.length :=
  (Command.length_of_encode? hencode).trans (width_of_le h.length)

/-- The check reckons the end of the place on words, the template with the exact sum. -/
theorem Fitting.fillTemplate?_eq_none_iff (h : command.Fitting) :
    command.fillTemplate? value? = none ↔
      command.valueOffset? ≠ none ∧ value?.bind command.encode? = none ∨ command.Overruns := by
  cases hoffset : command.valueOffset? with
  | none =>
      rw [fillTemplate?_of_plain hoffset]
      refine iff_of_false nofun ?_
      rintro (hasked | ⟨offset, hother, -⟩)
      · exact hasked.1 rfl
      · cases hoffset.symm.trans hother
  | some offset =>
      rw [fillTemplate?_of_offset hoffset, overruns_iff hoffset]
      cases hoctets : value?.bind command.encode? with
      | none => exact iff_of_true rfl (.inl ⟨nofun, rfl⟩)
      | some octets =>
          obtain ⟨v, -, hencode⟩ := Option.bind_eq_some_iff.1 hoctets
          rw [Option.bind_some, Bytes.overwrite?_eq_none_iff, h.length_of_encode? hencode]
          exact ⟨.inr, fun hnone => hnone.resolve_left fun hasked => (nomatch hasked.2)⟩

theorem Fitting.made_of_fillTemplate? {payload : Bytes} (h : command.Fitting)
    (hfill : command.fillTemplate? value? = some payload) : command.Made value? payload := by
  cases hoffset : command.valueOffset? with
  | none =>
      rw [fillTemplate?_of_plain hoffset] at hfill
      obtain rfl := Option.some.inj hfill
      exact ⟨rfl, fun _ => rfl, fun offset hother => nomatch hoffset.symm.trans hother⟩
  | some offset =>
      rw [fillTemplate?_of_offset hoffset] at hfill
      obtain ⟨octets, hoctets, hoverwrite⟩ := Option.bind_eq_some_iff.1 hfill
      obtain ⟨v, hv, hencode⟩ := Option.bind_eq_some_iff.1 hoctets
      have hpatched := Bytes.patched_of_overwrite? hoverwrite
      refine ⟨hpatched.length, fun hnone => (nomatch hoffset.symm.trans hnone), ?_⟩
      intro other hother
      obtain rfl := Option.some.inj (hoffset.symm.trans hother)
      exact ⟨v, octets, hv, hencode, h.length_of_encode? hencode, hpatched⟩

/-! ## Lists of octets -/

/-- The octet that a value is. -/
def octetOf? : Value → Option UInt8
  | .num n => do
    let k ← n.toNat?
    if k < 256 then some (UInt8.ofNat k) else none
  | _ => none

theorem octetOf?_eq_some {b : UInt8} : octetOf? v = some b ↔ v = .nat b.toNat := by
  constructor
  · intro h
    match v, h with
    | .num (.int n), h =>
      obtain ⟨k, hk, hb⟩ := Option.bind_eq_some_iff.1 h
      unfold Json.Number.toNat? at hk
      dsimp only at hk
      split at hk
      · next hpos =>
        obtain rfl := Option.some.inj hk
        split at hb
        · next hsmall =>
          rw [← Option.some.inj hb, UInt8.toNat_ofNat', Nat.mod_eq_of_lt hsmall]
          unfold Value.nat
          rw [Int.toNat_of_nonneg hpos]
        · cases hb
      · cases hk
  · rintro rfl
    have hword : (Json.Number.int b.toNat).toNat? = some b.toNat := by
      unfold Json.Number.toNat?
      dsimp only
      rw [if_pos (Int.natCast_nonneg _), Int.toNat_natCast]
    unfold octetOf? Value.nat
    dsimp only
    rw [hword]
    exact (if_pos b.toNat_lt).trans (congrArg some UInt8.ofNat_toNat)

theorem octetsOf?_arr (items : List Value) : octetsOf? (.arr items) = items.mapM octetOf? := rfl

theorem octetsOf?_eq_some {payload : Bytes} :
    octetsOf? v = some payload ↔ v = .arr (payload.map fun b => .nat b.toNat) := by
  have hitems (items : List Value) : items.mapM octetOf? = some payload ↔
      items = payload.map fun b => .nat b.toNat := by
    induction items generalizing payload with
    | nil =>
        rw [List.mapM_nil]
        cases payload with
        | nil => exact iff_of_true rfl rfl
        | cons b rest => exact iff_of_false nofun nofun
    | cons item rest ih =>
        rw [List.mapM_cons]
        simp only [bind, Option.bind_eq_some_iff, pure, Option.some_inj, octetOf?_eq_some, ih]
        cases payload with
        | nil => exact iff_of_false (fun ⟨_, _, _, _, h⟩ => nomatch h) nofun
        | cons b octets =>
            constructor
            · rintro ⟨_, rfl, _, rfl, h⟩
              obtain ⟨rfl, rfl⟩ := List.cons.inj h
              rfl
            · intro h
              obtain ⟨hitem, hrest⟩ := List.cons.inj h
              exact ⟨b, hitem, octets, hrest, rfl⟩
  cases v with
  | arr items => rw [octetsOf?_arr, hitems, Value.arr.injEq]
  | null | bool _ | num _ | str _ | obj _ => exact iff_of_false nofun nofun

section

variable {session : Expr.Session} {source : String} {state : Fields}
  {hosts : NameMap Expr.HostFunction}

theorem run_payload?_lambda (hdata : command.data = []) (hlambda : command.lambda? = some source) :
    (command.payload? value? state hosts).run session =
      (((Expr.evalValue? source (.ofCommand value? state hosts)).run session).1.bind octetsOf?,
        ((Expr.evalValue? source (.ofCommand value? state hosts)).run session).2) := by
  unfold payload?
  rw [hdata, hlambda]
  rfl

/-- A command without a template gives the octets that its expression lists. -/
theorem payload?_lambda_eq_some (hsound : session.engine.Sound) (hdata : command.data = [])
    (hlambda : command.lambda? = some source) (payload : Bytes) :
    ((command.payload? value? state hosts).run session).1 = some payload ↔
      Expr.outcome session.engine.budget source (.ofCommand value? state hosts) =
        .ok (.arr (payload.map fun b => .nat b.toNat)) := by
  rw [run_payload?_lambda hdata hlambda, Option.bind_eq_some_iff]
  simp only [octetsOf?_eq_some, hsound.evalValue?_eq_some_iff]
  constructor
  · rintro ⟨_, ⟨hvalue, -⟩, rfl⟩
    exact hvalue
  · exact fun hvalue => ⟨_, ⟨hvalue, nofun⟩, rfl⟩

theorem broken_payload?_lambda (hsound : session.engine.Sound) (hdata : command.data = [])
    (hlambda : command.lambda? = some source) :
    ((command.payload? value? state hosts).run session).2.broken = true ↔ session.broken = true ∨
      Expr.outcome session.engine.budget source (.ofCommand value? state hosts) =
        .error .breakdown := by
  rw [run_payload?_lambda hdata hlambda, hsound.broken_evalValue?_iff]

end

theorem payload?_of_template (hdata : command.data ≠ []) (state : Fields)
    (hosts : NameMap Expr.HostFunction) :
    command.payload? value? state hosts = pure (command.fillTemplate? value?) := by
  unfold payload?
  rw [if_neg (mt List.isEmpty_iff.1 hdata)]

end Command

/-! ## Checked entities -/

/-- The names under which a kind lists its commands are those under which it knows them. -/
theorem Features.forall_mem_commands (features : Features) : ∀ entry ∈ features.commands,
    entry.1 ≠ "update" ∧ features.command? entry.1 = entry.2 := by
  cases features <;> simp [commands, command?]

namespace Entity

variable {entity : Entity} {name : String} {command : Command}

/-- A device finds exactly the commands that are listed. -/
theorem command?_eq_some_iff :
    entity.command? name = some command ↔ (name, command) ∈ entity.commands := by
  refine ⟨mem_commands_of_command?, fun h => ?_⟩
  obtain ⟨⟨listed, command?⟩, hmem, hentry⟩ := List.mem_filterMap.1 h
  obtain ⟨described, rfl, hsame⟩ := Option.map_eq_some_iff.1 hentry
  obtain ⟨rfl, rfl⟩ := Prod.mk.inj hsame
  unfold command?
  rcases List.mem_append.1 hmem with hkind | hupdate
  · obtain ⟨hother, hcommand⟩ := entity.features.forall_mem_commands _ hkind
    rw [if_neg hother, hcommand]
  · obtain ⟨rfl, hcommand⟩ := Prod.mk.inj (List.mem_singleton.1 hupdate)
    rw [if_pos rfl, hcommand]

theorem fault?_of_validate (h : entity.validate = .ok ())
    (hmem : (name, command) ∈ entity.commands) : command.fault? name = none :=
  (faultless_of_validate h).1 _ hmem

theorem validate_of_check {session opened : Expr.Session}
    (h : entity.check.run session = (.ok (), opened)) : entity.validate = .ok () := by
  unfold check at h
  cases hvalid : entity.validate with
  | ok _ => rfl
  | error error =>
      rw [hvalid] at h
      cases h

end Entity

namespace Device

variable {device : Device} {env : DeviceEnv} {name : String} {value? : Option Value}

theorem payload?_of_unknown (h : device.entity.command? name = none) :
    device.payload? env name value? = pure none := by
  unfold payload?
  rw [h]

theorem payload?_of_known {command : Command} (h : device.entity.command? name = some command) :
    device.payload? env name value? = command.payload? value? device.state env.hosts := by
  unfold payload?
  rw [h]

/-- What passed the check can be sent.  A device finds a command of some name exactly if the entity
lists it, and then it is that one.  Its template gives a payload unless an argument is asked for and
has no octets, or its place does not lie within the template, which the check overlooks where the
end of the place is too large for a word; the payload is the template, but for the octets of the
argument, which take just the place that the check found for them.  Without a template the payload
is the list of octets that the expression comes to, and there is none if it comes to anything else;
only an expression that breaks off does not come back. -/
theorem payload?_of_check {entity : Entity} {session opened : Expr.Session}
    (hcheck : entity.check.run session = (.ok (), opened)) :
    (∀ name command, entity.command? name = some command ↔ (name, command) ∈ entity.commands) ∧
      ∀ (env : DeviceEnv) (state : Fields) (name : String) (value? : Option Value)
          (later : Expr.Session),
        let run := (({ entity, state } : Device).payload? env name value?).run later
        (entity.command? name = none → run = (none, later)) ∧
          ∀ command, (name, command) ∈ entity.commands →
            (command.data ≠ [] → run.2 = later ∧
              (run.1 = none ↔
                command.valueOffset? ≠ none ∧ value?.bind command.encode? = none ∨
                  command.Overruns) ∧
              (command.Overruns → ∃ offset, command.valueOffset? = some offset ∧
                Word.count ≤ offset + command.length) ∧
              ∀ payload, run.1 = some payload → command.Made value? payload) ∧
            (command.data = [] → later.engine.Sound →
              ∃ source, command.lambda? = some source ∧
                let outcome := Expr.outcome later.engine.budget source
                  (.ofCommand value? state env.hosts)
                (∀ payload, run.1 = some payload ↔
                  outcome = .ok (.arr (payload.map fun b => .nat b.toNat))) ∧
                (run.2.broken = true ↔
                  later.broken = true ∨ outcome = .error .breakdown)) := by
  refine ⟨fun name command => Entity.command?_eq_some_iff, ?_⟩
  intro env state name value? later run
  refine ⟨fun hunknown => ?_, fun command hmem => ?_⟩
  · dsimp only [run]
    rw [payload?_of_unknown hunknown]
    rfl
  · have hfitting := Command.fitting_of_fault?
      (Entity.fault?_of_validate (Entity.validate_of_check hcheck) hmem)
    have hknown := Entity.command?_eq_some_iff.2 hmem
    refine ⟨fun hdata => ?_, fun hdata hsound => ?_⟩
    · dsimp only [run]
      rw [payload?_of_known hknown, Command.payload?_of_template hdata]
      exact ⟨rfl, hfitting.fillTemplate?_eq_none_iff, hfitting.exceeds_of_overruns,
        fun _ => hfitting.made_of_fillTemplate?⟩
    · obtain ⟨source, hlambda⟩ := hfitting.given hdata
      dsimp only [run]
      rw [payload?_of_known hknown]
      exact ⟨source, hlambda, Command.payload?_lambda_eq_some hsound hdata hlambda,
        Command.broken_payload?_lambda hsound hdata hlambda⟩

/-- A lamp with a number in the middle of a template, and an expression that looks at the state. -/
def lamp : Entity where
  common := { id := "hall", update? := some { lambda? := some "[state.level, 255]" } }
  features := .light
    { turnOn? := some { data := [0x31, 0x01] }
      setBrightness? := some { data := [0x31, 0x00, 0x05], valueOffset? := some 1 } }

theorem payload?_of_check_lamp :
    let device : Device := { entity := lamp, state := [("level", .nat 7)] }
    let dimmed : Command := { data := [0x31, 0x00, 0x05], valueOffset? := some 1 }
    (lamp.check.run {}).1.isOk = true ∧
      ((device.payload? {} "on" none).run {}).1 = some [0x31, 0x01] ∧
      ((device.payload? {} "brightness" none).run {}).1 = none ∧
      ((device.payload? {} "brightness" (some (.int 66))).run {}).1 = some [0x31, 0x42, 0x05] ∧
      dimmed.Made (some (.int 66)) [0x31, 0x42, 0x05] ∧
      ((device.payload? {} "update" none).run {}).1 = some [7, 255] ∧
      Expr.outcome {} "[state.level, 255]" (.ofCommand none device.state []) =
        .ok (.arr [.nat 7, .nat 255]) := by
  intro device dimmed
  have hpasses : (lamp.check.run {}).1.isOk = true := by decide +kernel
  have hdimmed : ((device.payload? {} "brightness" (some (.int 66))).run {}).1 =
      some [0x31, 0x42, 0x05] := by decide +kernel
  have hupdate : ((device.payload? {} "update" none).run {}).1 = some [7, 255] := by
    decide +kernel
  refine ⟨hpasses, by decide +kernel, by decide +kernel, hdimmed, ?_, hupdate, ?_⟩
  all_goals
    generalize hopened : lamp.check.run {} = checked at hpasses
    obtain ⟨⟨⟩ | ⟨⟨⟩⟩, opened⟩ := checked
    · cases hpasses
    obtain ⟨hlisted, hpayload⟩ := payload?_of_check hopened
  · obtain ⟨-, hknown⟩ :=
      hpayload {} device.state "brightness" (some (.int 66)) {}
    obtain ⟨-, -, -, hmade⟩ := (hknown dimmed ((hlisted ..).1 rfl)).1 nofun
    exact hmade _ hdimmed
  · obtain ⟨-, hknown⟩ := hpayload {} device.state "update" none {}
    obtain ⟨source, hsource, hlist, -⟩ :=
      (hknown _ ((hlisted ..).1 rfl)).2 rfl (Expr.sound_start {})
    obtain rfl := Option.some.inj hsource
    exact (hlist [7, 255]).1 hupdate

-- The end of the place wraps to zero, so the check passes a place far beyond the template.
example :
    let command : Command := { data := [0x31, 0x00], valueOffset? := some (Word.count - 1) }
    let entity : Entity :=
      { common := { id := "hall" }, features := .light { setBrightness? := some command } }
    (entity.check.run {}).1.isOk = true ∧ command.encode? (.int 66) = some [0x42] ∧
      ((({ entity } : Device).payload? {} "brightness" (some (.int 66))).run {}).1 = none := by
  decide +kernel

/-- The expression passes the check, and the payload does not come back. -/
theorem payload?_breaks_off :
    let bell : Entity :=
      { common := { id := "bell" }
        features := .button
          { press? := some { lambda? := some "[(-9223372036854775807 - 1) / -1]" } } }
    (bell.check.run {}).1.isOk = true ∧
      ((({ entity := bell } : Device).payload? {} "press" none).run {}).2.broken = true := by
  decide +kernel

end Device

end PanelBus
