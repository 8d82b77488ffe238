import PanelBus.Event.Bus
/-!
# What a subscriber finds

A bus is seen as the list of all events ever published on it.  A subscriber whose position is among
the last events finds the one at its position; one that is further behind is told so, whatever the
events were.
-/

namespace PanelBus.EventBus

/-- These are all events that were published on the bus, oldest first. -/
structure Holds (bus : EventBus) (events : List Event) : Prop where
  published : bus.published = events.length
  kept : bus.kept = events.drop (events.length - bus.capacity)

theorem holds_ofCapacity (capacity : Nat) : (ofCapacity capacity).Holds [] :=
  ⟨rfl, List.drop_nil.symm⟩

@[simp] theorem capacity_publish (bus : EventBus) (event : Event) :
    (bus.publish event).capacity = bus.capacity := rfl

variable {bus : EventBus} {events : List Event}

theorem Holds.publish (h : bus.Holds events) (event : Event) :
    (bus.publish event).Holds (events ++ [event]) where
  published := by
    rw [List.length_append, List.length_singleton, ← h.published]
    rfl
  kept := by
    have hkept : bus.kept ++ [event] =
        (events ++ [event]).drop (events.length - bus.capacity) := by
      rw [h.kept, List.drop_append_of_le_length (Nat.sub_le _ _)]
    change (bus.kept ++ [event]).drop ((bus.kept ++ [event]).length - bus.capacity) = _
    rw [hkept, List.drop_drop, List.length_drop, List.length_append, List.length_singleton,
      capacity_publish]
    congr 1
    omega

theorem Holds.publishAll (h : bus.Holds events) (more : List Event) :
    (bus.publishAll more).Holds (events ++ more) := by
  induction more generalizing bus events with
  | nil => rwa [List.append_nil]
  | cons event rest ih =>
      have hrest := ih (h.publish event)
      rwa [List.append_assoc, List.singleton_append] at hrest

theorem Holds.forgotten_eq (h : bus.Holds events) :
    bus.forgotten = events.length - bus.capacity := by
  unfold forgotten
  rw [h.published, h.kept, List.length_drop]
  omega

theorem Holds.skipped_pos_iff (h : bus.Holds events) (sub : Subscription) :
    0 < bus.skipped sub ↔ sub.position + bus.capacity < events.length := by
  unfold skipped
  rw [h.forgotten_eq]
  omega

theorem Holds.unread_eq (h : bus.Holds events) {sub : Subscription} (hkept : bus.skipped sub = 0) :
    bus.unread sub = events.drop sub.position := by
  have hposition : bus.forgotten + (sub.position - bus.forgotten) = sub.position := by
    unfold skipped at hkept
    omega
  unfold unread
  rw [h.kept, ← h.forgotten_eq, List.drop_drop, hposition]

/-- A subscriber has read everything, or has missed events, or finds the event at its position. -/
theorem Holds.next?_cases (h : bus.Holds events) (sub : Subscription) :
    (events.length ≤ sub.position ∧ bus.next? sub = none) ∨
    (0 < bus.skipped sub ∧ ∃ behind,
      bus.next? sub = some (.lagged (bus.skipped sub), behind)) ∨
    (bus.skipped sub = 0 ∧ ∃ event, events[sub.position]? = some event ∧
      bus.next? sub = some (.event event, ⟨sub.position + 1⟩)) := by
  have hskipped := h.skipped_pos_iff sub
  unfold next?
  by_cases hend : events.length ≤ sub.position
  · refine .inl ⟨hend, ?_⟩
    rw [if_pos]
    unfold backlog
    rw [h.published]
    omega
  · have hbacklog : bus.backlog sub ≠ 0 := by
      unfold backlog
      rw [h.published]
      omega
    rw [if_neg hbacklog]
    by_cases hlagged : 0 < bus.skipped sub
    · rw [if_pos hlagged]
      exact .inr (.inl ⟨hlagged, _, rfl⟩)
    · have hhead : (bus.unread sub).head? = events[sub.position]? := by
        rw [h.unread_eq (by omega), List.head?_drop]
      obtain ⟨event, hevent⟩ : ∃ event, events[sub.position]? = some event :=
        ⟨_, List.getElem?_eq_getElem (Nat.lt_of_not_le hend)⟩
      rw [if_neg hlagged, hhead, hevent]
      exact .inr (.inr ⟨by omega, event, rfl, rfl⟩)

theorem Holds.next?_of_skipped (h : bus.Holds events) {sub : Subscription}
    (hlagged : 0 < bus.skipped sub) :
    ∃ behind, bus.next? sub = some (.lagged (bus.skipped sub), behind) := by
  have hfar := (h.skipped_pos_iff sub).1 hlagged
  rcases h.next?_cases sub with ⟨hend, _⟩ | ⟨_, hnext⟩ | ⟨hkept, _⟩
  · omega
  · exact hnext
  · omega

/-- A subscriber that has missed nothing reads the first of its events and keeps the others. -/
theorem Holds.next?_of_unread (h : bus.Holds events) {sub : Subscription}
    (hkept : bus.skipped sub = 0) {event : Event} {rest : List Event}
    (hunread : bus.unread sub = event :: rest) :
    bus.next? sub = some (.event event, ⟨sub.position + 1⟩) ∧
      bus.skipped ⟨sub.position + 1⟩ = 0 ∧ bus.unread ⟨sub.position + 1⟩ = rest := by
  have hdrop := h.unread_eq hkept
  have hkept' : bus.skipped ⟨sub.position + 1⟩ = 0 := by
    unfold skipped at hkept ⊢
    dsimp only
    omega
  have hget : events[sub.position]? = some event := by
    rw [← List.head?_drop, ← hdrop, hunread, List.head?_cons]
  refine ⟨?_, hkept', ?_⟩
  · have hlt := (List.getElem?_eq_some_iff.1 hget).1
    rcases h.next?_cases sub with ⟨hend, _⟩ | ⟨hlagged, _⟩ | ⟨_, other, hother, hnext⟩
    · omega
    · omega
    · rw [hget] at hother
      obtain rfl := Option.some.inj hother
      exact hnext
  · rw [h.unread_eq hkept', ← List.drop_drop, ← hdrop, hunread]
    rfl

end PanelBus.EventBus
