import PanelBus.Sending.Desk
import PanelBus.Proofs.Sending.Turns
/-!
# Desks as exchanges

All that is done at a desk, in any order, is a run of an exchange.  So what holds after every run of
an exchange holds at every desk.
-/

namespace PanelBus

namespace SendingDesk

/-- The desks that come about.  The owner does nothing more with a queue that was let go. -/
inductive Life (txDelay : Nat) : SendingDesk → Prop where
  | opened : Life txDelay (ofDelay txDelay)
  | publish {desk : SendingDesk} (h : Life txDelay desk) (events : List Event) :
      Life txDelay (desk.publish events)
  | enqueue {desk : SendingDesk} (h : Life txDelay desk) (howned : desk.owned = true)
      {request : SendRequest} (hattached : request.attached = false) :
      Life txDelay (desk.enqueue request).2
  | send {desk : SendingDesk} (h : Life txDelay desk) (howned : desk.owned = true)
      (request : SendRequest) : Life txDelay (desk.send request).2
  | shutdown {desk : SendingDesk} (h : Life txDelay desk) (howned : desk.owned = true) :
      Life txDelay desk.shutdown
  | release {desk : SendingDesk} (h : Life txDelay desk) (howned : desk.owned = true) :
      Life txDelay desk.release
  | settle {desk : SendingDesk} (h : Life txDelay desk) : Life txDelay desk.settle
  | advance {desk : SendingDesk} (h : Life txDelay desk) (ms : Nat) : Life txDelay (desk.advance ms)

/-- The senders that have not had their turn, first come first. -/
def coming (desk : SendingDesk) : List Job := desk.early ++ desk.late

/-- Those who come wait for a result.  They hold the queue with those who wait already and perhaps
the owner. -/
structure Held (desk : SendingDesk) : Prop where
  queue : desk.queue.Held (desk.coming.length + if desk.owned then 1 else 0)
  attached : ∀ job ∈ desk.coming, job.request.attached = true

theorem Held.holders_ne_zero {desk : SendingDesk} (h : desk.Held) (howned : desk.owned = true) :
    desk.queue.signal.holders ≠ 0 := by
  have hqueue := h.queue
  unfold CommandQueue.Held at hqueue
  rw [howned, if_pos rfl] at hqueue
  omega

/-- A sender that comes is the last one, and holds the queue from then on. -/
theorem send_eq (desk : SendingDesk) (request : SendRequest) :
    (desk.send request).2.bus = desk.bus ∧ (desk.send request).2.owned = desk.owned ∧
      (desk.send request).2.queue =
        { desk.queue.reserve.2 with signal := desk.queue.signal.share } ∧
        (desk.send request).2.coming =
          desk.coming ++ [⟨desk.queue.issued, { request with attached := true }⟩] := by
  unfold send coming
  dsimp only
  split
  · exact ⟨rfl, rfl, rfl, (List.append_assoc _ _ _).symm⟩
  · next hbehind =>
    have hlate : desk.late = [] := by
      simp only [Bool.or_eq_true, Bool.not_eq_true', not_or, Bool.not_eq_false] at hbehind
      exact List.isEmpty_iff.1 hbehind.2
    rw [hlate]
    exact ⟨rfl, rfl, rfl, by simp [CommandQueue.reserve]⟩

theorem Held.send {desk : SendingDesk} (h : desk.Held) (request : SendRequest) :
    (desk.send request).2.Held := by
  obtain ⟨_, howned, hqueue, hcoming⟩ := desk.send_eq request
  refine ⟨?_, ?_⟩
  · have hbefore : desk.queue.signal.holders = _ := h.queue
    rw [hqueue, hcoming, howned, List.length_append, List.length_singleton]
    change desk.queue.signal.holders + 1 = desk.queue.waiting + _
    rw [hbefore]
    omega
  · intro job hjob
    rw [hcoming] at hjob
    rcases List.mem_append.1 hjob with hjob | hjob
    · exact h.attached job hjob
    · rw [List.mem_singleton.1 hjob]

theorem Held.release {desk : SendingDesk} (h : desk.Held) (howned : desk.owned = true) :
    desk.release.Held := by
  refine ⟨?_, h.attached⟩
  have hbefore : desk.queue.signal.holders = _ := h.queue
  rw [howned, if_pos rfl] at hbefore
  change desk.queue.signal.holders - 1 = desk.queue.waiting + (desk.coming.length + 0)
  omega

theorem Held.settle {desk : SendingDesk} (h : desk.Held) : desk.settle.Held := by
  refine ⟨?_, fun _ hnone => nomatch hnone⟩
  have hqueue := h.queue
  rw [coming, List.length_append, Nat.add_assoc] at hqueue
  have hearly := hqueue.deliverAll fun job hjob => h.attached job (List.mem_append_left _ hjob)
  have hlate := (hearly.turn desk.bus).endTurn.deliverAll
    fun job hjob => h.attached job (List.mem_append_right _ hjob)
  change CommandQueue.Held _ (0 + _)
  rw [Nat.zero_add]
  exact hlate.settle

theorem held_of_life {txDelay : Nat} {desk : SendingDesk} (h : Life txDelay desk) : desk.Held := by
  induction h with
  | opened => exact ⟨rfl, fun _ hnone => nomatch hnone⟩
  | publish _ events ih => exact ⟨ih.queue, ih.attached⟩
  | enqueue _ howned hattached ih => exact ⟨ih.queue.enqueue hattached, ih.attached⟩
  | send _ howned request ih => exact ih.send request
  | shutdown _ howned ih => exact ⟨ih.queue, ih.attached⟩
  | release _ howned ih => exact ih.release howned
  | settle _ ih => exact ih.settle
  | advance _ ms ih => exact ⟨ih.settle.queue.advance ms, ih.settle.attached⟩

theorem leads_settle {ex : Exchange} {desk : SendingDesk}
    (h : ex.Carries desk.bus desk.queue desk.coming) :
    ex.Leads desk.settle.bus desk.settle.queue desk.settle.coming :=
  ((((h.deliverAll).trans fun _ hex => hex.turn).trans fun _ hex => hex.endTurn).trans
    fun _ hex => Exchange.Carries.deliverAll ((List.append_nil desk.late).symm ▸ hex)).trans
      fun _ hex => hex.settle

/-- Whatever is done at a desk is a run of an exchange with the same bus, queue and senders. -/
theorem exists_run {txDelay : Nat} {desk : SendingDesk} (h : Life txDelay desk) (outlet : Outlet) :
    (Exchange.start EventBus.defaultCapacity txDelay [] outlet).Leads desk.bus desk.queue
      desk.coming := by
  induction h with
  | opened => exact Exchange.Carries.leads ⟨rfl, rfl, rfl⟩
  | publish _ events ih => exact ih.trans fun _ hex => hex.publishAll events
  | enqueue h howned hattached ih =>
      exact ih.trans fun _ hex => hex.enqueue ((held_of_life h).holders_ne_zero howned) hattached
  | @send desk h howned request ih =>
      obtain ⟨hbus, _, hqueue, hcoming⟩ := desk.send_eq request
      rw [hbus, hqueue, hcoming]
      exact ih.trans fun _ hex => hex.send ((held_of_life h).holders_ne_zero howned) request
  | shutdown h howned ih =>
      exact ih.trans fun _ hex => hex.shutdown ((held_of_life h).holders_ne_zero howned)
  | release h howned ih =>
      have hheld := (held_of_life h).queue
      rw [howned, if_pos rfl] at hheld
      exact ih.trans fun _ hex => hex.release hheld
  | settle _ ih => exact ih.trans fun _ hex => leads_settle hex
  | advance _ ms ih =>
      exact (ih.trans fun _ hex => leads_settle hex).trans fun _ hex => hex.advance ms

end SendingDesk

end PanelBus
