import PanelBus.Event.Basic
/-!
# The event bus

A bus keeps its last events.  A subscription is a position in the sequence of all events; a
subscriber that reads too late first learns how many events it has missed and goes on with the
oldest one kept.
-/

namespace PanelBus

/-- A sequence of events of which the last ones are kept. -/
structure EventBus where
  capacity : Nat
  published : Nat := 0
  /-- The events kept, oldest first. -/
  kept : List Event := []

/-- A position on a bus: the number of events that the subscriber has behind it. -/
structure Subscription where
  /-- The number of events read or missed. -/
  position : Nat
deriving DecidableEq, Repr

/-- What a subscriber finds at its position. -/
inductive Reading where
  /-- So many events are no longer kept. -/
  | lagged (skipped : Nat)
  | event (event : Event)

namespace EventBus

/-- The number of events kept unless another one is asked for. -/
def defaultCapacity : Nat := 256

/-- An empty bus.  The number of events kept is rounded up to a power of two. -/
def ofCapacity (capacity : Nat) : EventBus :=
  { capacity := (max capacity 1).nextPowerOfTwo }

/-- An empty bus with the default capacity. -/
def empty : EventBus := ofCapacity defaultCapacity

/-- Publishes an event. -/
def publish (bus : EventBus) (event : Event) : EventBus :=
  let events := bus.kept ++ [event]
  { bus with
    published := bus.published + 1
    kept := events.drop (events.length - bus.capacity) }

/-- Publishes events in order. -/
def publishAll (bus : EventBus) (events : List Event) : EventBus := events.foldl publish bus

/-- A subscription to what is published from now on. -/
def subscribe (bus : EventBus) : Subscription := ⟨bus.published⟩

/-- The number of events published but no longer kept. -/
def forgotten (bus : EventBus) : Nat := bus.published - bus.kept.length

/-- The number of events that the subscriber has missed. -/
def skipped (bus : EventBus) (sub : Subscription) : Nat := bus.forgotten - sub.position

/-- The number of events that the subscriber has not read, missed ones included. -/
def backlog (bus : EventBus) (sub : Subscription) : Nat := bus.published - sub.position

/-- The kept events that the subscriber has not read. -/
def unread (bus : EventBus) (sub : Subscription) : List Event :=
  bus.kept.drop (sub.position - bus.forgotten)

/-- The next thing that the subscriber finds, and its position behind it. -/
def next? (bus : EventBus) (sub : Subscription) : Option (Reading × Subscription) :=
  if bus.backlog sub = 0 then none
  else if 0 < bus.skipped sub then some (.lagged (bus.skipped sub), ⟨bus.forgotten⟩)
  else (bus.unread sub).head?.map fun event => (.event event, ⟨sub.position + 1⟩)

theorem backlog_lt_of_next? {bus : EventBus} {sub behind : Subscription} {reading : Reading}
    (h : bus.next? sub = some (reading, behind)) : bus.backlog behind < bus.backlog sub := by
  unfold next? at h
  split at h
  · cases h
  · next hbacklog =>
    split at h
    · next hskipped =>
      injection h with h
      injection h with _ h
      subst h
      simp only [backlog, skipped, forgotten] at hbacklog hskipped ⊢
      omega
    · cases hhead : (bus.unread sub).head? with
      | none => simp [hhead] at h
      | some event =>
        simp only [hhead, Option.map_some, Option.some.injEq, Prod.mk.injEq] at h
        rw [← h.2]
        simp only [backlog] at hbacklog ⊢
        omega

/-- All that the subscriber finds, and its position behind it. -/
def readAll (bus : EventBus) (sub : Subscription) : List Reading × Subscription :=
  let skipped := bus.skipped sub
  let missed := if skipped = 0 then [] else [Reading.lagged skipped]
  (missed ++ (bus.unread sub).map .event, bus.subscribe)

end EventBus

end PanelBus
