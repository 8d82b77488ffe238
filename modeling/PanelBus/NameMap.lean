/-!
# Maps from names

A finite map from names, kept as the list of its entries in strictly rising order of their names,
so that equal maps are equal lists.  Names are ordered by their code points.
-/

namespace PanelBus

/-- A finite map from names: its entries, in strictly rising order of their names. -/
abbrev NameMap (α : Type) := List (String × α)

namespace NameMap

variable {α β : Type}

/-- The value of a name. -/
def get? (m : NameMap α) (name : String) : Option α := m.lookup name

/-- Whether the name has a value. -/
def has (m : NameMap α) (name : String) : Bool := (m.get? name).isSome

/-- The map with the value of `name` set. -/
def insert (name : String) (value : α) : NameMap α → NameMap α
  | [] => [(name, value)]
  | (key, old) :: rest =>
    if name < key then (name, value) :: (key, old) :: rest
    else if name = key then (name, value) :: rest
    else (key, old) :: insert name value rest

/-- The map with the value of `name` set unless the name already has one. -/
def insertIfNew (name : String) (value : α) (m : NameMap α) : NameMap α :=
  if m.has name then m else m.insert name value

/-- The map of the entries; of several values for one name the last counts. -/
def ofList (entries : List (String × α)) : NameMap α :=
  entries.foldl (fun m (name, value) => m.insert name value) []

/-- The first map with the entries of the second set. -/
def union (m other : NameMap α) : NameMap α :=
  other.foldl (fun m (name, value) => m.insert name value) m

/-- The names, in rising order. -/
def names (m : NameMap α) : List String := m.map Prod.fst

/-- The map with every value replaced by its image. -/
def mapValues (f : α → β) (m : NameMap α) : NameMap β :=
  m.map fun (name, value) => (name, f value)

theorem get?_insert_self (m : NameMap α) (name : String) (value : α) :
    (m.insert name value).get? name = some value := by
  induction m with
  | nil => simp [insert, get?]
  | cons entry rest ih =>
    obtain ⟨key, old⟩ := entry
    unfold insert
    split
    · simp [get?]
    · split
      · simp [get?]
      · next hne =>
        simp only [get?, List.lookup_cons]
        rw [beq_eq_false_iff_ne.mpr hne]
        exact ih

theorem get?_insert_of_ne (m : NameMap α) {name other : String} (value : α)
    (h : other ≠ name) : (m.insert name value).get? other = m.get? other := by
  induction m with
  | nil => simp [insert, get?, h]
  | cons entry rest ih =>
    obtain ⟨key, old⟩ := entry
    unfold insert
    split
    · simp [get?, List.lookup_cons, beq_eq_false_iff_ne.mpr h]
    · split
      · next heq =>
        subst heq
        simp [get?, List.lookup_cons, beq_eq_false_iff_ne.mpr h]
      · simp only [get?, List.lookup_cons] at ih ⊢
        split
        · rfl
        · exact ih

theorem get?_union_of_ne (m other : NameMap α) {name : String}
    (h : ∀ entry ∈ other, entry.1 ≠ name) : (m.union other).get? name = m.get? name := by
  unfold union
  induction other generalizing m with
  | nil => rfl
  | cons entry rest ih =>
    rw [List.foldl_cons, ih _ fun e he => h e (List.mem_cons_of_mem _ he)]
    exact get?_insert_of_ne m entry.2 (h entry List.mem_cons_self).symm

end NameMap

end PanelBus
