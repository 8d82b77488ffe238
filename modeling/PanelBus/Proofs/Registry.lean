import PanelBus.Registry
/-!
# Changes of devices

A device that takes fields over gives the change that they make of its state, or gives none and
stays as it is.  A frame lets all devices of a line take fields over, and a command lets one.
-/

namespace PanelBus

open Json (Value Fields)

/-- The change was made of that state: all its entries are news there, and it tells the whole state
that they lead to. -/
structure StateChange.Alters (change : StateChange) (old : Fields) : Prop where
  state : change.state = NameMap.union old change.changes
  nonempty : change.changes ≠ []
  news : ∀ entry ∈ change.changes, ∀ value, NameMap.get? old entry.1 = some value →
    value.same entry.2 = false
  untouched : ∀ field, (∀ entry ∈ change.changes, entry.1 ≠ field) →
    NameMap.get? change.state field = NameMap.get? old field

/-- A device takes fields over: it becomes another one, with the change that comes of it. -/
inductive Device.Takes (device : Device) : Option StateChange → Device → Prop where
  | keep : Takes device none device
  | change {change : StateChange} (hid : change.deviceId = device.id)
      (halters : change.Alters device.state) :
      Takes device (some change) { device with state := change.state }

/-- Devices take fields over one after the other. -/
inductive Device.TakeAll : List Device → List StateChange → List Device → Prop where
  | nil : TakeAll [] [] []
  | cons {device next : Device} {change? : Option StateChange} {devices nexts : List Device}
      {changes : List StateChange} (h : device.Takes change? next)
      (hrest : TakeAll devices changes nexts) :
      TakeAll (device :: devices) (change?.toList ++ changes) (next :: nexts)

namespace Device

theorem takeAll_keep (devices : List Device) : TakeAll devices [] devices := by
  induction devices with
  | nil => exact .nil
  | cons device rest ih => exact .cons .keep ih

variable {devices nexts : List Device} {changes : List StateChange}

theorem Takes.id_eq {device next : Device} {change? : Option StateChange}
    (h : device.Takes change? next) : next.id = device.id := by
  cases h with
  | keep => rfl
  | change hid halters => rfl

theorem TakeAll.ids_eq (h : TakeAll devices changes nexts) :
    nexts.map Device.id = devices.map Device.id := by
  induction h with
  | nil => rfl
  | cons h hrest ih => rw [List.map_cons, List.map_cons, h.id_eq, ih]

/-- What a change tells of its device is so afterwards. -/
theorem TakeAll.exists_of_mem (h : TakeAll devices changes nexts) {change : StateChange}
    (hmem : change ∈ changes) :
    ∃ next ∈ nexts, next.id = change.deviceId ∧ next.state = change.state := by
  induction h with
  | nil => cases hmem
  | @cons device next change? devices nexts changes h hrest ih =>
      rcases List.mem_append.1 hmem with hfirst | hlater
      · cases h with
        | keep => cases hfirst
        | change hid halters =>
            obtain rfl := List.mem_singleton.1 hfirst
            exact ⟨_, List.mem_cons_self, hid.symm, rfl⟩
      · obtain ⟨other, hother, hstate⟩ := ih hlater
        exact ⟨other, List.mem_cons_of_mem _ hother, hstate⟩

/-- The devices whose state is told differ from those that stay as they are. -/
theorem TakeAll.eq_of_nil (h : TakeAll devices [] nexts) : nexts = devices := by
  generalize hchanges : ([] : List StateChange) = changes at h
  induction h with
  | nil => rfl
  | cons h hrest ih =>
      obtain ⟨hfirst, hlater⟩ := List.append_eq_nil_iff.1 hchanges.symm
      cases h with
      | keep => rw [ih hlater.symm]
      | change hid halters => cases hfirst

end Device

namespace Registry

theorem alters_changedFields {state delta : Fields} (id : String)
    (hsome : changedFields state delta ≠ []) :
    StateChange.Alters ⟨id, changedFields state delta,
      NameMap.union state (changedFields state delta)⟩ state where
  state := rfl
  nonempty := hsome
  news := by
    intro entry hentry value hvalue
    have hnews := (List.mem_filter.1 hentry).2
    dsimp only at hnews
    rw [hvalue] at hnews
    simpa using hnews
  untouched := fun _ hfield => NameMap.get?_union_of_ne _ _ hfield

theorem takes_applyDelta (device : Device) (delta : Fields) :
    device.Takes (applyDelta device delta).1 (applyDelta device delta).2 := by
  unfold applyDelta Device.merge
  dsimp only
  split
  · next hnone =>
    rw [List.isEmpty_iff.1 hnone]
    exact .keep
  · next hsome =>
    exact .change rfl (alters_changedFields _ fun hnone => hsome (List.isEmpty_iff.2 hnone))

/-- The first device takes its fields over, and then the others take theirs. -/
theorem run_dispatchAll_cons (env : DeviceEnv) (frame : Bytes) (device : Device)
    (rest : List Device) (session : Expr.Session) :
    (dispatchAll env frame (device :: rest)).run session =
      let parsed := (device.parse? env frame).run session
      let taken := parsed.1.elim (none, device) (applyDelta device)
      let others := (dispatchAll env frame rest).run parsed.2
      ((taken.1.toList ++ others.1.1, taken.2 :: others.1.2), others.2) := by
  rw [dispatchAll, StateT.run_bind]
  generalize (device.parse? env frame).run session = parsed
  obtain ⟨delta?, middle⟩ := parsed
  cases delta? with
  | none => rfl
  | some delta => rfl

theorem takeAll_dispatchAll (env : DeviceEnv) (frame : Bytes) (devices : List Device)
    (session : Expr.Session) :
    Device.TakeAll devices ((dispatchAll env frame devices).run session).1.1
      ((dispatchAll env frame devices).run session).1.2 := by
  induction devices generalizing session with
  | nil => exact .nil
  | cons device rest ih =>
      rw [run_dispatchAll_cons]
      generalize (device.parse? env frame).run session = parsed
      obtain ⟨delta?, middle⟩ := parsed
      cases delta? with
      | none => exact .cons .keep (ih middle)
      | some delta => exact .cons (takes_applyDelta device delta) (ih middle)

theorem takeAll_dispatch (registry : Registry) (frame : Bytes) (session : Expr.Session) :
    Device.TakeAll registry.devices ((registry.dispatch frame).run session).1.1
      ((registry.dispatch frame).run session).1.2.devices :=
  takeAll_dispatchAll registry.env frame registry.devices session

/-! ## Ids -/

theorem id_of_find? {registry : Registry} {id : String} {device : Device}
    (h : registry.find? id = some device) : device.id = id := by
  have hid := List.find?_some h
  exact beq_iff_eq.1 hid

/-- No two devices have one id. -/
def Distinct (registry : Registry) : Prop := (registry.devices.map Device.id).Nodup

/-- Fields that the devices of an id take over are taken over by one device. -/
theorem takeAll_map {devices : List Device} (hdistinct : (devices.map Device.id).Nodup)
    {id : String} {device : Device} (hdevice : devices.find? (·.id == id) = some device)
    (delta : Fields) :
    Device.TakeAll devices (applyDelta device delta).1.toList
      (devices.map fun d => if d.id == id then (applyDelta d delta).2 else d) := by
  induction devices with
  | nil => cases hdevice
  | cons first rest ih =>
      rw [List.map_cons] at hdistinct
      obtain ⟨hfresh, hrest⟩ := List.nodup_cons.1 hdistinct
      rw [List.map_cons]
      by_cases hid : first.id = id
      · have hothers : ∀ other ∈ rest,
            (if other.id == id then (applyDelta other delta).2 else other) = other := by
          intro other hother
          refine if_neg ?_
          intro hsame
          exact hfresh (hid.trans (beq_iff_eq.1 hsame).symm ▸ List.mem_map_of_mem hother)
        rw [List.find?_cons, beq_iff_eq.2 hid] at hdevice
        obtain rfl := Option.some.inj hdevice
        rw [if_pos (beq_iff_eq.2 hid), List.map_congr_left hothers, List.map_id']
        have hall := Device.TakeAll.cons (takes_applyDelta first delta) (Device.takeAll_keep rest)
        rwa [List.append_nil] at hall
      · rw [List.find?_cons, beq_eq_false_iff_ne.2 hid] at hdevice
        rw [if_neg (fun hsame => hid (beq_iff_eq.1 hsame))]
        exact .cons .keep (ih hrest hdevice)

theorem takeAll_applyOptimistic {registry : Registry} (hdistinct : registry.Distinct)
    (id command : String) (value? : Option Value) :
    Device.TakeAll registry.devices (registry.applyOptimistic id command value?).1.toList
      (registry.applyOptimistic id command value?).2.devices := by
  unfold applyOptimistic
  cases hdevice : registry.find? id with
  | none => exact Device.takeAll_keep _
  | some device =>
      dsimp only
      cases device.optimisticDelta? command value? with
      | none => exact Device.takeAll_keep _
      | some delta => exact takeAll_map hdistinct hdevice delta

/-- A registry in which no device has heard anything. -/
structure Fresh (registry : Registry) : Prop where
  distinct : registry.Distinct
  unheard : ∀ device ∈ registry.devices, device.state = []

theorem Fresh.register {registry next : Registry} (h : registry.Fresh) {entity : Entity}
    (hnext : registry.register entity = .ok next) : next.Fresh := by
  unfold Registry.register at hnext
  dsimp only at hnext
  split at hnext
  · cases hnext
  · next hfree =>
    obtain rfl := Except.ok.inj hnext
    refine ⟨?_, ?_⟩
    · unfold Distinct
      rw [List.map_append, List.nodup_append]
      refine ⟨h.distinct, List.pairwise_singleton _ _, ?_⟩
      intro taken htaken new hnew hsame
      obtain ⟨device, hdevice, rfl⟩ := List.mem_map.1 htaken
      obtain rfl := List.mem_singleton.1 hnew
      exact hfree (List.find?_isSome.2 ⟨device, hdevice, beq_iff_eq.2 hsame⟩)
    · intro device hdevice
      rcases List.mem_append.1 hdevice with hbefore | hnew
      · exact h.unheard device hbefore
      · rw [List.mem_singleton.1 hnew]

theorem Fresh.registerAll {registry next : Registry} (h : registry.Fresh) (entities : List Entity)
    (session : Expr.Session)
    (hnext : ((registry.registerAll entities).run session).1 = .ok next) : next.Fresh := by
  induction entities generalizing registry session with
  | nil =>
      obtain rfl := Except.ok.inj hnext
      exact h
  | cons entity rest ih =>
      unfold Registry.registerAll at hnext
      rw [StateT.run_bind] at hnext
      generalize entity.check.run session = checked at hnext
      obtain ⟨result, middle⟩ := checked
      cases result with
      | error error => cases hnext
      | ok _ =>
          cases hregister : registry.register entity with
          | error error =>
              rw [hregister] at hnext
              cases hnext
          | ok grown =>
              rw [hregister] at hnext
              exact ih (h.register hregister) middle hnext

theorem fresh_ofEntities {env : DeviceEnv} {entities : List Entity} {session : Expr.Session}
    {registry : Registry} (h : ((ofEntities env entities).run session).1 = .ok registry) :
    registry.Fresh := by
  have hempty : Fresh { env } := ⟨List.nodup_nil, fun _ hmem => absurd hmem List.not_mem_nil⟩
  exact hempty.registerAll entities session h

end Registry

end PanelBus
