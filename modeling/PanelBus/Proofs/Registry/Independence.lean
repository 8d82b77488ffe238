import PanelBus.Proofs.Registry.Acts
/-!
# Devices do not interfere

Beside others a device tells what it tells alone, and ends as it ends alone.  The one thing that
passes from a device to another is that an evaluation breaks off, for that ends them all.
-/

namespace PanelBus.Registry

open Json (Value Fields)

variable {budget : Expr.Budget} {env : DeviceEnv} {devices others : List Device} {device : Device}
  {acts : List Act} {entities : List Entity}

/-! ## What is told -/

/-- Of all that is told the changes of one device are what it tells alone. -/
theorem filter_tellings (hdistinct : (devices.map Device.id).Nodup) (hmem : device ∈ devices) :
    (tellings budget env acts devices).flatten.filter (·.deviceId == device.id) =
      (tellings budget env acts [device]).flatten := by
  induction acts generalizing devices device with
  | nil => rfl
  | cons act rest ih =>
      rw [← map_id_respond act] at hdistinct
      have hnext := ih hdistinct (List.mem_map_of_mem hmem)
      rw [Device.id_respond] at hnext
      rw [map_id_respond] at hdistinct
      have hothers : ∀ other : Device, other.id ≠ device.id →
          (other.respond budget env act).change?.toList.filter (·.deviceId == device.id) = [] := by
        intro other hother
        refine List.filter_eq_nil_iff.2 fun change hchange hsame => hother ?_
        rw [← Device.deviceId_respond (Option.mem_toList.1 hchange)]
        exact beq_iff_eq.1 hsame
      have hown : (device.respond budget env act).change?.toList.filter
          (·.deviceId == device.id) = (device.respond budget env act).change?.toList :=
        List.filter_eq_self.2 fun change hchange =>
          beq_iff_eq.2 (Device.deviceId_respond (Option.mem_toList.1 hchange))
      rw [tellings, tellings, List.flatten_cons, List.flatten_cons, List.filter_append, hnext,
        List.filter_flatMap, flatMap_eq_of_mem hmem hdistinct hothers, hown,
        List.flatMap_singleton, List.map_singleton]

/-- At each act the devices tell in the order of their registration. -/
theorem sublist_of_mem_tellings {changes : List StateChange}
    (h : changes ∈ tellings budget env acts devices) :
    (changes.map (·.deviceId)).Sublist (devices.map Device.id) := by
  induction acts generalizing devices with
  | nil => exact absurd h List.not_mem_nil
  | cons act rest ih =>
      rcases List.mem_cons.1 h with rfl | hlater
      · clear h ih
        induction devices with
        | nil => exact .refl _
        | cons first more ih =>
            have hfirst : ((first.respond budget env act).change?.toList.map (·.deviceId)).Sublist
                [first.id] := by
              cases hchange : (first.respond budget env act).change? with
              | none => exact List.nil_sublist _
              | some change =>
                  have hid : change.deviceId = first.id := Device.deviceId_respond hchange
                  rw [← hid]
                  exact .refl _
            rw [List.flatMap_cons, List.map_append]
            exact hfirst.append ih
      · have hrest := ih hlater
        rwa [map_id_respond] at hrest

/-- Devices in another order tell the same at each act, in another order. -/
theorem tellings_perm (h : devices.Perm others) :
    List.Forall₂ List.Perm (tellings budget env acts devices)
      (tellings budget env acts others) := by
  induction acts generalizing devices others with
  | nil => exact .nil
  | cons act rest ih => exact .cons (h.flatMap_right _) (ih (h.map _))

/-! ## Courses -/

/-- What a registry of the entities tells act by act, and how it ends.  There is nothing if an
evaluation breaks off. -/
def course (env : DeviceEnv) (budget : Expr.Budget) (entities : List Entity) (acts : List Act) :
    Except EntityError (Option (List (List StateChange) × Registry)) :=
  let (result, session) := (ofEntities env entities).run { engine := { budget } }
  result.map fun registry =>
    let (ending, session) := (registry.performAll acts).run session
    if session.broken then none else some ending

theorem newDevices_ids (entities : List Entity) :
    (newDevices entities).map Device.id = entities.map (·.common.id) := List.map_map

/-- A course in terms of the devices one by one. -/
theorem course_eq_ok_iff {outcome : Option (List (List StateChange) × Registry)} :
    course env budget entities acts = .ok outcome ↔ Usable budget entities ∧
      outcome = if (newDevices entities).any (Device.breaks budget env acts) then none
        else some (tellings budget env acts (newDevices entities),
          { env, devices := (newDevices entities).map (Device.after budget env acts) }) := by
  obtain ⟨result, hresult, hfinal⟩ := yields_ofEntities budget env entities
  have hstart := hresult { engine := { budget } } (Expr.sound_start budget) rfl
  unfold course
  generalize (ofEntities env entities).run { engine := { budget } } = opened at hstart ⊢
  obtain ⟨made, session⟩ := opened
  obtain ⟨rfl, hbroken, hsound, hbudget⟩ := hstart
  dsimp only at hbroken hsound hbudget hfinal ⊢
  cases made with
  | error error =>
      refine iff_of_false nofun fun h => ?_
      exact nomatch (hfinal _).2 ⟨h.1, rfl⟩
  | ok registry =>
      obtain ⟨husable, rfl⟩ := (hfinal registry).1 rfl
      have hdistinct : Distinct { env, devices := newDevices entities } := by
        unfold Distinct
        rw [newDevices_ids]
        exact husable.distinct
      have hrun := yields_performAll hdistinct acts session hsound hbudget
      change Except.ok (match (performAll { env, devices := newDevices entities } acts).run session
        with | (ending, session) => if session.broken then none else some ending) = _ ↔ _
      generalize (performAll { env, devices := newDevices entities } acts).run session = ended
        at hrun ⊢
      obtain ⟨ending, after⟩ := ended
      obtain ⟨rfl, hbreaks, -⟩ := hrun
      dsimp only at hbreaks ⊢
      rw [hbreaks, hbroken, Except.ok.injEq, eq_comm]
      exact (and_iff_right husable).symm

/-- What a device tells by itself of the acts that reach it, and how it ends. -/
def alone (env : DeviceEnv) (budget : Expr.Budget) (acts : List Act) (entity : Entity) :
    Except EntityError (Option (List (List StateChange) × Registry)) :=
  course env budget [entity] (acts.filter (·.reaches entity.common.id))

/-- What the device of an id tells, and its state in the end. -/
def shareOf (id : String) (ending : List (List StateChange) × Registry) :
    List StateChange × Option Fields :=
  (ending.1.flatten.filter (·.deviceId == id), (ending.2.find? id).map Device.state)

theorem find?_after (hdistinct : (devices.map Device.id).Nodup) (hmem : device ∈ devices) :
    find? { env, devices := devices.map (Device.after budget env acts) } device.id =
      some (device.after budget env acts) := by
  have hafter : (devices.map (Device.after budget env acts)).map Device.id =
      devices.map Device.id := by
    rw [List.map_map]
    exact List.map_congr_left fun other _ => Device.id_after acts other
  rw [← hafter] at hdistinct
  have hfind := find?_of_mem (List.mem_map_of_mem hmem) hdistinct
  rw [Device.id_after] at hfind
  exact hfind

theorem Usable.distinct_newDevices (h : Usable budget entities) :
    ((newDevices entities).map Device.id).Nodup := by
  rw [newDevices_ids]
  exact h.distinct

theorem Usable.alone_eq (h : Usable budget entities) {entity : Entity} (hmem : entity ∈ entities) :
    alone env budget acts entity = .ok (if Device.breaks budget env acts { entity } then none
      else some (tellings budget env (acts.filter (·.reaches entity.common.id)) [{ entity }],
        { env, devices := [Device.after budget env acts { entity }] })) := by
  have husable : Usable budget [entity] := by
    refine ⟨fun other hother => ?_, List.nodup_singleton _⟩
    rw [List.mem_singleton.1 hother]
    exact h.checked entity hmem
  have hbreaks : Device.breaks budget env (acts.filter (·.reaches entity.common.id)) { entity } =
      Device.breaks budget env acts { entity } := Device.breaks_filter acts { entity }
  have hafter : Device.after budget env (acts.filter (·.reaches entity.common.id)) { entity } =
      Device.after budget env acts { entity } := Device.after_filter acts { entity }
  have hone : newDevices [entity] = [{ entity }] := rfl
  refine course_eq_ok_iff.2 ⟨husable, ?_⟩
  rw [hone, List.any_cons, List.any_nil, Bool.or_false, List.map_singleton, hbreaks, hafter]

/-- Of all that is told and of how the devices end, the share of one is what it has alone. -/
theorem Usable.shareOf_eq (h : Usable budget entities) {entity : Entity}
    (hmem : entity ∈ entities) :
    shareOf entity.common.id (tellings budget env acts (newDevices entities),
        { env, devices := (newDevices entities).map (Device.after budget env acts) }) =
      ((tellings budget env (acts.filter (·.reaches entity.common.id)) [{ entity }]).flatten,
        (find? { env, devices := [Device.after budget env acts { entity }] }
          entity.common.id).map Device.state) := by
  have hdevice : { entity } ∈ newDevices entities := List.mem_map_of_mem hmem
  have htold : (tellings budget env acts (newDevices entities)).flatten.filter
      (·.deviceId == entity.common.id) =
        (tellings budget env (acts.filter (·.reaches entity.common.id)) [{ entity }]).flatten :=
    calc (tellings budget env acts (newDevices entities)).flatten.filter
          (·.deviceId == entity.common.id)
      _ = (tellings budget env acts [{ entity }]).flatten :=
        filter_tellings h.distinct_newDevices hdevice
      _ = (tellings budget env (acts.filter (·.reaches entity.common.id)) [{ entity }]).flatten :=
        (Device.tellings_filter acts { entity }).symm
  have hown : find? { env, devices := [Device.after budget env acts { entity }] }
      entity.common.id = some (Device.after budget env acts { entity }) :=
    List.find?_cons_of_pos (beq_iff_eq.2 (Device.id_after acts { entity }))
  have hfound : find? { env, devices := (newDevices entities).map (Device.after budget env acts) }
      entity.common.id = some (Device.after budget env acts { entity }) :=
    find?_after h.distinct_newDevices hdevice
  unfold shareOf
  dsimp only
  rw [htold, hfound, hown]

/-- In a registry of usable entities a device tells exactly what it tells alone, and ends as it
ends alone, unless another one breaks off and it does not.  At each act the devices tell in the
order of their registration, each at most once; registered in another order they tell the same at
each act, in another order. -/
theorem independence {outcome : Option (List (List StateChange) × Registry)}
    (h : course env budget entities acts = .ok outcome) :
    (∀ entity ∈ entities, ∃ own, alone env budget acts entity = .ok own ∧
      (outcome.map (shareOf entity.common.id) =
          own.map (fun ending =>
            (ending.1.flatten, (ending.2.find? entity.common.id).map Device.state)) ↔
        own = none ∨ ∀ other ∈ entities, alone env budget acts other ≠ .ok none)) ∧
    (∀ ending, outcome = some ending → ∀ changes ∈ ending.1,
      (changes.map (·.deviceId)).Sublist (entities.map (·.common.id)) ∧
        (changes.map (·.deviceId)).Nodup) ∧
    ∀ others : List Entity, others.Perm entities → ∃ reordered,
      course env budget others acts = .ok reordered ∧
        Option.Rel (fun first second => List.Forall₂ List.Perm first.1 second.1 ∧
          first.2.devices.Perm second.2.devices) reordered outcome := by
  obtain ⟨husable, rfl⟩ := course_eq_ok_iff.1 h
  refine ⟨fun entity hentity => ⟨_, husable.alone_eq hentity, ?_⟩, ?_, ?_⟩
  · have hmem : { entity } ∈ newDevices entities := List.mem_map_of_mem hentity
    by_cases hbreaks : Device.breaks budget env acts { entity } = true
    · have hany : (newDevices entities).any (Device.breaks budget env acts) = true :=
        List.any_eq_true.2 ⟨_, hmem, hbreaks⟩
      rw [if_pos hbreaks, if_pos hany]
      exact iff_of_true rfl (.inl rfl)
    by_cases hany : (newDevices entities).any (Device.breaks budget env acts) = true
    · rw [if_neg hbreaks, if_pos hany]
      refine iff_of_false nofun ?_
      rintro (hnone | hall)
      · cases hnone
      · obtain ⟨device, hdevice, hother⟩ := List.any_eq_true.1 hany
        obtain ⟨other, hmember, rfl⟩ := List.mem_map.1 hdevice
        refine hall other hmember ((husable.alone_eq hmember).trans ?_)
        rw [if_pos hother]
    · rw [if_neg hbreaks, if_neg hany]
      refine iff_of_true (congrArg some (husable.shareOf_eq hentity)) (.inr ?_)
      intro other hmember
      have hother : Device.breaks budget env acts { entity := other } ≠ true := fun hbreak =>
        hany (List.any_eq_true.2 ⟨_, List.mem_map_of_mem hmember, hbreak⟩)
      rw [husable.alone_eq hmember, if_neg hother]
      nofun
  · intro ending hending changes hchanges
    split at hending
    · cases hending
    · obtain rfl := Option.some.inj hending
      have hsublist := sublist_of_mem_tellings hchanges
      rw [newDevices_ids] at hsublist
      exact ⟨hsublist, husable.distinct.sublist hsublist⟩
  · intro others hperm
    have hdevices : (newDevices others).Perm (newDevices entities) := hperm.map _
    have hother : Usable budget others :=
      ⟨fun entity hentity => husable.checked entity (hperm.mem_iff.1 hentity),
        (hperm.map _).nodup_iff.2 husable.distinct⟩
    refine ⟨_, course_eq_ok_iff.2 ⟨hother, rfl⟩, ?_⟩
    rw [hdevices.any_eq]
    split
    · exact .none
    · exact .some ⟨tellings_perm hdevices, hdevices.map _⟩

/-- A sensor that tells whether a door is open. -/
def door : Entity where
  common := { id := "door", state? := some { data := [0x30] } }
  features := .binarySensor { on? := some { offset := 1, data := [0x01] } }

/-- A lamp that is taken to be on as soon as that is asked for. -/
def lamp : Entity where
  common := { id := "lamp", state? := some { data := [0x30] }, optimistic := true }
  features := .light { off? := some { offset := 1, data := [0x01] } }

theorem independence_door :
    ∃ outcome, course {} {} [door, lamp] [.optimistic "lamp" "on" none, .frame [0x30, 0x01]] =
        .ok outcome ∧
      outcome.map (shareOf "door") =
        some ([⟨"door", [("state", .str "ON")], [("state", .str "ON")]⟩],
          some [("state", .str "ON")]) := by
  have hcourse : ∃ outcome, course {} {} [door, lamp]
      [.optimistic "lamp" "on" none, .frame [0x30, 0x01]] = .ok outcome := ⟨_, rfl⟩
  obtain ⟨outcome, houtcome⟩ := hcourse
  refine ⟨outcome, houtcome, ?_⟩
  obtain ⟨own, hown, hshares⟩ := (independence houtcome).1 door (.head _)
  obtain rfl := Except.ok.inj hown
  refine hshares.2 (.inr fun other hother => ?_)
  simp only [List.mem_cons, List.not_mem_nil, or_false] at hother
  rcases hother with rfl | rfl <;> exact nofun

/-- A sensor with a guard that divides the least word by `-1`. -/
def faulty : Entity where
  common :=
    { id := "hall"
      state? := some { data := [0x30], guard? := some "(-9223372036854775807 - 1) / -1" } }
  features := .binarySensor {}

/-- Beside a device that breaks off the door tells nothing of a frame of which it tells alone. -/
theorem interference :
    course {} {} [faulty, door] [.frame [0x30, 0x01]] = .ok none ∧
      ∃ ending, alone {} {} [.frame [0x30, 0x01]] door = .ok (some ending) ∧
        ending.1 = [[⟨"door", [("state", .str "ON")], [("state", .str "ON")]⟩]] :=
  ⟨rfl, _, rfl, rfl⟩

end PanelBus.Registry
