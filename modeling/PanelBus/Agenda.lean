/-!
# Turns

Those who do something at the same time take turns, in the order in which they asked for one.  Who
uses up a turn without being done is put off: such a one waits again when nobody else does, or when
a round of turns is over.
-/

namespace PanelBus

/-- Who waits for a turn. -/
structure Agenda (α : Type) where
  /-- Those whose turn comes, first come first. -/
  waiting : List α := []
  /-- Those who are put off. -/
  delayed : List α := []
  /-- The number of turns taken in the round at hand. -/
  taken : Nat := 0

namespace Agenda

variable {α : Type}

/-- The number of turns in a round. -/
def roundLength : Nat := 61

/-- Adds a turn at the end. -/
def push (agenda : Agenda α) (who : α) : Agenda α :=
  { agenda with waiting := agenda.waiting ++ [who] }

/-- Puts someone off. -/
def delay (agenda : Agenda α) (who : α) : Agenda α :=
  { agenda with delayed := agenda.delayed ++ [who] }

/-- Those who are put off wait again. -/
def resume (agenda : Agenda α) : Agenda α := { waiting := agenda.waiting ++ agenda.delayed }

/-- Whether someone waits or is put off. -/
def has [BEq α] (agenda : Agenda α) (who : α) : Bool :=
  agenda.waiting.contains who || agenda.delayed.contains who

/-- Asks for a turn.  Who waits already gets no second one, and who was put off waits again. -/
def ask [BEq α] (agenda : Agenda α) (who : α) : Agenda α :=
  if agenda.waiting.contains who then agenda
  else { agenda with delayed := agenda.delayed.erase who }.push who

/-- Begins a round. -/
def restart (agenda : Agenda α) : Agenda α := { agenda with taken := 0 }

/-- Whose turn it is, and who waits behind. -/
def next? (agenda : Agenda α) : Option (α × Agenda α) :=
  let agenda :=
    if agenda.waiting.isEmpty || agenda.taken = roundLength then agenda.resume else agenda
  match agenda.waiting with
  | [] => none
  | who :: waiting => some (who, { agenda with waiting, taken := agenda.taken + 1 })

/-! ## Weighing the turns -/

/-- The weights of some together. -/
def total (weight : α → Nat) : List α → Nat
  | [] => 0
  | who :: rest => weight who + total weight rest

/-- The weights of all who wait or are put off. -/
def weigh (weight : α → Nat) (agenda : Agenda α) : Nat :=
  total weight agenda.waiting + total weight agenda.delayed

@[simp] theorem total_append (weight : α → Nat) (xs ys : List α) :
    total weight (xs ++ ys) = total weight xs + total weight ys := by
  induction xs with
  | nil => simp [total]
  | cons x rest ih => simp only [List.cons_append, total, ih]; omega

theorem total_erase_le [BEq α] (weight : α → Nat) (who : α) (xs : List α) :
    total weight (xs.erase who) ≤ total weight xs := by
  induction xs with
  | nil => simp
  | cons x rest ih =>
    rw [List.erase_cons]
    split
    · simp only [total]; omega
    · simp only [total]; omega

@[simp] theorem weigh_push (weight : α → Nat) (agenda : Agenda α) (who : α) :
    (agenda.push who).weigh weight = agenda.weigh weight + weight who := by
  simp only [weigh, push, total_append, total]
  omega

@[simp] theorem weigh_delay (weight : α → Nat) (agenda : Agenda α) (who : α) :
    (agenda.delay who).weigh weight = agenda.weigh weight + weight who := by
  simp only [weigh, delay, total_append, total]
  omega

theorem weigh_ask_le [BEq α] (weight : α → Nat) (agenda : Agenda α) (who : α) :
    (agenda.ask who).weigh weight ≤ agenda.weigh weight + weight who := by
  unfold ask
  split
  · omega
  · have herase := total_erase_le weight who agenda.delayed
    rw [weigh_push]
    simp only [weigh]
    omega

theorem weigh_of_next? {agenda rest : Agenda α} {who : α} (weight : α → Nat)
    (h : agenda.next? = some (who, rest)) :
    agenda.weigh weight = weight who + rest.weigh weight := by
  have hresume : ∀ b : Bool,
      (if b then agenda.resume else agenda).weigh weight = agenda.weigh weight := by
    intro b
    cases b with
    | false => rfl
    | true => simp only [if_true, weigh, resume, total_append, total]; omega
  unfold next? at h
  rw [← hresume (agenda.waiting.isEmpty || agenda.taken = roundLength)]
  revert h
  generalize (if agenda.waiting.isEmpty || agenda.taken = roundLength then agenda.resume
    else agenda) = begun
  intro h
  dsimp only at h
  split at h
  · cases h
  · next hwaiting =>
    injection h with h
    injection h with hwho hrest
    subst hwho hrest
    simp only [weigh, hwaiting, total]
    omega

end Agenda

end PanelBus
