/-!
# Waiting

Times are counted in milliseconds from a common start.  A wait has a length, and no single wait is
longer than thirty years: one that is asked to be longer ends then.
-/

namespace PanelBus.Clock

/-- The length of the longest wait: thirty years of 365 days. -/
def longestWait : Nat := 30 * 365 * 24 * 60 * 60 * 1000

/-- When a wait of that length is over that begins now. -/
def after (now span : Nat) : Nat := now + min span longestWait

theorem le_after (now span : Nat) : now ≤ after now span := Nat.le_add_right _ _

theorem after_of_le {span : Nat} (now : Nat) (h : span ≤ longestWait) :
    after now span = now + span := by
  rw [after, Nat.min_eq_left h]

end PanelBus.Clock
