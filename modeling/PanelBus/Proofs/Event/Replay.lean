import PanelBus.Event.Basic
import PanelBus.Proofs.Registry
/-!
# States read off events

Whoever keeps the changes that the events tell of a device knows its state.
-/

namespace PanelBus

open Json (Fields)

/-- The fields of a device after one more event. -/
def Event.replay (id : String) (state : Fields) : Event → Fields
  | .stateChanged change =>
    if change.deviceId = id then NameMap.union state change.changes else state
  | .deviceError .. => state

/-- The fields that the events tell of a device. -/
def replay (id : String) (events : List Event) : Fields := events.foldl (Event.replay id) []

theorem replay_concat (id : String) (events : List Event) (event : Event) :
    replay id (events ++ [event]) = event.replay id (replay id events) := by
  unfold replay
  rw [List.foldl_append]
  rfl

/-- Every change among the events was made of the state that the events before it tell. -/
def Faithful (events : List Event) : Prop :=
  ∀ early change late, events = early ++ .stateChanged change :: late →
    change.Alters (replay change.deviceId early)

theorem Faithful.concat {events : List Event} (h : Faithful events) {event : Event}
    (hevent : ∀ change, event = .stateChanged change →
      change.Alters (replay change.deviceId events)) : Faithful (events ++ [event]) := by
  intro early change late hsplit
  rcases List.eq_nil_or_concat late with rfl | ⟨before, last, rfl⟩
  · obtain ⟨rfl, hlast⟩ := List.append_inj' hsplit rfl
    exact hevent change (List.singleton_inj.1 hlast)
  · have hbefore : events ++ [event] = (early ++ .stateChanged change :: before) ++ [last] := by
      rw [hsplit, List.concat_eq_append, List.append_assoc, List.cons_append]
    exact h early change before (List.append_inj' hbefore rfl).1

/-- The devices become others, which is what the events say, or something goes wrong that changes no
device. -/
inductive Recounts (devices : List Device) : List Event → List Device → Prop where
  | changes {changes : List StateChange} {nexts : List Device}
      (h : Device.TakeAll devices changes nexts) :
      Recounts devices (changes.map .stateChanged) nexts
  | deviceError (deviceId? : Option String) (kind : DeviceErrorKind) (message : String) :
      Recounts devices [.deviceError deviceId? kind message] devices

theorem recounts_keep (devices : List Device) : Recounts devices [] devices :=
  .changes (Device.takeAll_keep devices)

theorem Recounts.exists_of_mem {devices nexts : List Device} {events : List Event}
    (h : Recounts devices events nexts) {change : StateChange}
    (hmem : .stateChanged change ∈ events) :
    ∃ next ∈ nexts, next.id = change.deviceId ∧ next.state = change.state := by
  cases h with
  | changes hall =>
      obtain ⟨other, hother, hsame⟩ := List.mem_map.1 hmem
      obtain rfl := Event.stateChanged.inj hsame
      exact hall.exists_of_mem hother
  | deviceError deviceId? kind message => cases List.mem_singleton.1 hmem

theorem Recounts.ids_eq {devices nexts : List Device} {events : List Event}
    (h : Recounts devices events nexts) : nexts.map Device.id = devices.map Device.id := by
  cases h with
  | changes hall => exact hall.ids_eq
  | deviceError deviceId? kind message => rfl

theorem Recounts.eq_of_nil {devices nexts : List Device} (h : Recounts devices [] nexts) :
    nexts = devices := by
  generalize hevents : ([] : List Event) = events at h
  cases h with
  | changes hall =>
      rw [List.map_eq_nil_iff.1 hevents.symm] at hall
      exact hall.eq_of_nil
  | deviceError deviceId? kind message => cases hevents

/-- The events tell the states of the devices. -/
structure Tells (events : List Event) (devices : List Device) : Prop where
  distinct : (devices.map Device.id).Nodup
  state : ∀ device ∈ devices, device.state = replay device.id events
  faithful : Faithful events

theorem tells_of_fresh {registry : Registry} (h : registry.Fresh) : Tells [] registry.devices where
  distinct := h.distinct
  state := h.unheard
  faithful := by
    intro early change late hsplit
    simp at hsplit

variable {events : List Event} {changes : List StateChange} {devices nexts : List Device}

theorem Tells.takes {done rest : List Device} {device next : Device}
    {change? : Option StateChange} (h : Tells events (done ++ device :: rest))
    (htakes : device.Takes change? next) :
    Tells (events ++ change?.toList.map .stateChanged) (done ++ next :: rest) := by
  have hids : (done ++ next :: rest).map Device.id = (done ++ device :: rest).map Device.id := by
    rw [List.map_append, List.map_append, List.map_cons, List.map_cons, htakes.id_eq]
  have hdistinct := h.distinct
  cases htakes with
  | keep =>
      change Tells (events ++ []) _
      rwa [List.append_nil]
  | @change change hid halters =>
      have hmem : device ∈ done ++ device :: rest := List.mem_append_right _ List.mem_cons_self
      rw [h.state device hmem, ← hid] at halters
      change Tells (events ++ [.stateChanged change]) _
      refine ⟨hids ▸ hdistinct, ?_, h.faithful.concat ?_⟩
      · -- The ids are distinct, so the change is about the one device that takes fields over.
        rw [List.map_append, List.map_cons, List.nodup_append, List.nodup_cons] at hdistinct
        obtain ⟨_, ⟨hlater, _⟩, hearlier⟩ := hdistinct
        have hother : ∀ other ∈ done ++ device :: rest, other.id ≠ device.id →
            other.state = replay other.id (events ++ [.stateChanged change]) := by
          intro other hother hne
          rw [replay_concat, Event.replay, if_neg (fun hsame => hne (hsame.symm.trans hid))]
          exact h.state other hother
        intro other hmem
        rcases List.mem_append.1 hmem with hbefore | hafter
        · refine hother other (List.mem_append_left _ hbefore) ?_
          exact hearlier _ (List.mem_map_of_mem hbefore) _ List.mem_cons_self
        · rcases List.mem_cons.1 hafter with rfl | hrest
          · change change.state = replay device.id _
            rw [replay_concat, Event.replay, if_pos hid, halters.state, hid]
          · refine hother other (List.mem_append_right _ (List.mem_cons_of_mem _ hrest)) ?_
            exact fun hsame => hlater (hsame ▸ List.mem_map_of_mem hrest)
      · intro other hother
        obtain rfl := Event.stateChanged.inj hother
        exact halters

theorem Tells.takeAll (h : Tells events devices) (hall : Device.TakeAll devices changes nexts) :
    Tells (events ++ changes.map .stateChanged) nexts := by
  suffices hsuffices : ∀ done, Tells events (done ++ devices) →
      Tells (events ++ changes.map .stateChanged) (done ++ nexts) from hsuffices [] h
  clear h
  induction hall generalizing events with
  | nil =>
      intro done h
      change Tells (events ++ []) _
      rwa [List.append_nil]
  | @cons device next change? devices nexts changes htakes hrest ih =>
      intro done h
      have hnext := h.takes htakes
      rw [List.append_cons] at hnext
      have hlater := ih _ hnext
      rwa [← List.append_cons, List.append_assoc, ← List.map_append] at hlater

theorem Tells.deviceError (h : Tells events devices) (deviceId? : Option String)
    (kind : DeviceErrorKind) (message : String) :
    Tells (events ++ [.deviceError deviceId? kind message]) devices where
  distinct := h.distinct
  state := by
    intro device hdevice
    rw [replay_concat]
    exact h.state device hdevice
  faithful := h.faithful.concat fun change hchange => by cases hchange

theorem Tells.recount (h : Tells events devices) {more : List Event}
    (hmore : Recounts devices more nexts) : Tells (events ++ more) nexts := by
  cases hmore with
  | changes hall => exact h.takeAll hall
  | deviceError deviceId? kind message => exact h.deviceError deviceId? kind message

end PanelBus
