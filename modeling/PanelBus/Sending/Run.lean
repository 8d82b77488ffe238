import PanelBus.Sending.Progress
/-!
# Running a queue

A queue gets a single turn, or turns until nothing is left to do at the present time, or up to a
later time.
-/

namespace PanelBus.CommandQueue

/-- The moves of a turn, its end apart. -/
def turn (queue : CommandQueue) (bus : EventBus) : CommandQueue :=
  match _h : queue.move? bus with
  | some next => next.turn bus
  | none => queue
termination_by turnLength - queue.spent
decreasing_by
  have hspent := spent_of_move? ‹queue.move? bus = some next›
  omega

theorem turn_eq_or_closer (queue : CommandQueue) (bus : EventBus) :
    queue.turn bus = queue ∨ Closer bus (queue.turn bus) queue := by
  fun_induction turn queue bus with
  | case1 queue next hmove ih =>
    right
    have hcloser := closer_of_move? hmove
    rcases ih with heq | hturn
    · rw [heq]
      exact hcloser
    · simp only [Closer] at hcloser hturn ⊢
      omega
  | case2 queue _ => exact Or.inl rfl

/-- All moves up to `target`. -/
def runUntil (queue : CommandQueue) (bus : EventBus) (target : Nat) : CommandQueue :=
  match _h : queue.stepBy? bus target with
  | some next => next.runUntil bus target
  | none => queue
termination_by (queue.work, bus.backlog queue.watcher.events, queue.spent)
decreasing_by
  rcases nearer_of_stepBy? ‹queue.stepBy? bus target = some next› with
    (hless | ⟨hsame, hless⟩) | ⟨hsame, hread, hless⟩
  · exact Prod.Lex.left _ _ hless
  · rw [hsame]
    exact Prod.Lex.right _ (Prod.Lex.left _ _ hless)
  · rw [hsame, hread]
    exact Prod.Lex.right _ (Prod.Lex.right _ hless)

/-- All turns at the present time. -/
def settle (queue : CommandQueue) (bus : EventBus) : CommandQueue :=
  (queue.runUntil bus queue.now).endTurn

/-- All turns of the next `ms` milliseconds, those due at their end included. -/
def advance (queue : CommandQueue) (bus : EventBus) (ms : Nat) : CommandQueue :=
  let target := queue.now + ms
  { (queue.runUntil bus target).endTurn with now := target }

end PanelBus.CommandQueue
