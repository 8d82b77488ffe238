import Mathlib.Data.List.Induction
import Mathlib.Data.String.Basic
import PanelBus.NameMap
/-!
# Entries of maps

The entries of a map stand in rising order of their names, so no name occurs twice.
-/

namespace PanelBus.NameMap

variable {α : Type} {m other : NameMap α} {name : String} {value : α}

/-- The entries stand in strictly rising order of their names. -/
def Rising (m : NameMap α) : Prop := m.Pairwise fun entry later => entry.1 < later.1

theorem rising_nil : Rising ([] : NameMap α) := .nil

theorem mem_insert {entry : String × α} (h : entry ∈ m.insert name value) :
    entry = (name, value) ∨ entry ∈ m := by
  induction m with
  | nil => exact .inl (List.mem_singleton.1 h)
  | cons first rest ih =>
      obtain ⟨key, old⟩ := first
      unfold insert at h
      split at h
      · exact List.mem_cons.1 h
      · split at h
        · exact (List.mem_cons.1 h).imp_right (List.mem_cons_of_mem _)
        · rcases List.mem_cons.1 h with rfl | hrest
          · exact .inr List.mem_cons_self
          · exact (ih hrest).imp_right (List.mem_cons_of_mem _)

theorem Rising.insert (h : m.Rising) (name : String) (value : α) :
    (m.insert name value).Rising := by
  induction m with
  | nil => exact List.pairwise_singleton _ _
  | cons first rest ih =>
      obtain ⟨key, old⟩ := first
      obtain ⟨hfirst, hrest⟩ := List.pairwise_cons.1 h
      unfold NameMap.insert
      split
      · next hbefore =>
        refine List.pairwise_cons.2 ⟨List.forall_mem_cons.2 ⟨hbefore, ?_⟩, h⟩
        exact fun later hlater => lt_trans hbefore (hfirst later hlater)
      · next hnotbefore =>
        split
        · next hsame =>
          subst hsame
          exact List.pairwise_cons.2 ⟨hfirst, hrest⟩
        · next hother =>
          refine List.pairwise_cons.2 ⟨fun later hlater => ?_, ih hrest⟩
          rcases mem_insert hlater with rfl | hold
          · exact lt_of_le_of_ne (not_lt.1 hnotbefore) (Ne.symm hother)
          · exact hfirst later hold

theorem Rising.mapValues {β : Type} (f : α → β) (h : m.Rising) : (m.mapValues f).Rising :=
  List.pairwise_map.2 h

theorem mem_of_get? (h : m.get? name = some value) : (name, value) ∈ m := by
  obtain ⟨before, after, hsplit, -⟩ := List.lookup_eq_some_iff.1 h
  rw [hsplit]
  exact List.mem_append_right _ List.mem_cons_self

theorem Rising.get?_eq (h : m.Rising) (hmem : (name, value) ∈ m) : m.get? name = some value := by
  induction m with
  | nil => exact absurd hmem List.not_mem_nil
  | cons first rest ih =>
      obtain ⟨key, old⟩ := first
      obtain ⟨hfirst, hrest⟩ := List.pairwise_cons.1 h
      unfold get?
      rcases List.mem_cons.1 hmem with hsame | hlater
      · obtain ⟨rfl, rfl⟩ := Prod.mk.inj hsame
        rw [List.lookup_cons, beq_self_eq_true]
      · rw [List.lookup_cons, beq_eq_false_iff_ne.2 (ne_of_gt (hfirst _ hlater))]
        exact ih hrest hlater

theorem Rising.unique (h : m.Rising) {value' : α} (hmem : (name, value) ∈ m)
    (hother : (name, value') ∈ m) : value = value' :=
  Option.some.inj ((h.get?_eq hmem).symm.trans (h.get?_eq hother))

theorem get?_union_of_mem (m : NameMap α) (h : other.Rising) (hmem : (name, value) ∈ other) :
    (m.union other).get? name = some value := by
  unfold union
  induction other generalizing m with
  | nil => exact absurd hmem List.not_mem_nil
  | cons first rest ih =>
      obtain ⟨hfirst, hrest⟩ := List.pairwise_cons.1 h
      rw [List.foldl_cons]
      rcases List.mem_cons.1 hmem with rfl | hlater
      · have hother : ∀ entry ∈ rest, entry.1 ≠ name := fun entry hentry =>
          ne_of_gt (hfirst entry hentry)
        exact (get?_union_of_ne _ rest hother).trans (get?_insert_self m name value)
      · exact ih _ hrest hlater

/-! ## Maps of entries in any order -/

theorem ofList_concat (entries : List (String × α)) (name : String) (value : α) :
    ofList (entries ++ [(name, value)]) = (ofList entries).insert name value :=
  List.foldl_concat _ _ _ _

@[simp] theorem lookup_cons (name key : String) (value : α) (rest : List (String × α)) :
    List.lookup name ((key, value) :: rest) =
      if name = key then some value else rest.lookup name := by
  rw [List.lookup_cons]
  by_cases hsame : name = key
  · rw [if_pos hsame, beq_iff_eq.2 hsame]
  · rw [if_neg hsame, beq_eq_false_iff_ne.2 hsame]

theorem get?_ofList (entries : List (String × α)) (name : String) :
    (ofList entries).get? name = entries.reverse.lookup name := by
  induction entries using List.reverseRecOn with
  | nil => rfl
  | append_singleton before last ih =>
      obtain ⟨key, value⟩ := last
      rw [ofList_concat, List.reverse_concat, lookup_cons]
      by_cases hsame : name = key
      · rw [hsame, get?_insert_self, if_pos rfl]
      · rw [get?_insert_of_ne _ _ hsame, ih, if_neg hsame]

theorem rising_ofList (entries : List (String × α)) : (ofList entries).Rising := by
  induction entries using List.reverseRecOn with
  | nil => exact rising_nil
  | append_singleton before last ih =>
      rw [ofList_concat]
      exact ih.insert last.1 last.2

theorem mem_of_mem_ofList {entries : List (String × α)} {entry : String × α}
    (h : entry ∈ ofList entries) : entry ∈ entries := by
  induction entries using List.reverseRecOn with
  | nil => exact h
  | append_singleton before last ih =>
      rw [ofList_concat] at h
      rcases mem_insert h with rfl | hbefore
      · exact List.mem_append_right _ List.mem_cons_self
      · exact List.mem_append_left _ (ih hbefore)

/-! ## Entries for names without a value -/

/-- The map with the entries set whose names have no value yet. -/
def fill (m : NameMap α) (entries : List (String × α)) : NameMap α :=
  entries.foldl (fun m (name, value) => m.insertIfNew name value) m

theorem get?_insertIfNew (m : NameMap α) (name : String) (value : α) (other : String) :
    (m.insertIfNew name value).get? other =
      (m.get? other).or (if other = name then some value else none) := by
  unfold insertIfNew has
  by_cases hsame : other = name
  · subst hsame
    cases hold : m.get? other with
    | none =>
        rw [Option.isSome_none, if_neg Bool.false_ne_true, get?_insert_self, if_pos rfl]
        rfl
    | some old =>
        rw [Option.isSome_some, if_pos rfl, hold]
        rfl
  · rw [if_neg hsame, Option.or_none]
    split
    · rfl
    · exact get?_insert_of_ne m value hsame

theorem get?_fill (m : NameMap α) (entries : List (String × α)) (name : String) :
    (m.fill entries).get? name = (m.get? name).or (entries.lookup name) := by
  unfold fill
  induction entries generalizing m with
  | nil => exact (Option.or_none ..).symm
  | cons entry rest ih =>
      obtain ⟨key, value⟩ := entry
      rw [List.foldl_cons, ih, get?_insertIfNew, Option.or_assoc, lookup_cons]
      split <;> rfl

theorem Rising.fill (h : m.Rising) (entries : List (String × α)) : (m.fill entries).Rising := by
  unfold NameMap.fill
  induction entries generalizing m with
  | nil => exact h
  | cons entry rest ih =>
      refine ih ?_
      change (m.insertIfNew entry.1 entry.2).Rising
      unfold insertIfNew
      split
      · exact h
      · exact h.insert entry.1 entry.2

/-! ## Entries of items -/

section

variable {β : Type} {items : List β} {key : β → String} {read : β → Option α}

theorem lookup_filterMap_of_ne (h : ∀ item ∈ items, key item ≠ name) :
    (items.filterMap fun item => (read item).map fun value => (key item, value)).lookup name =
      none := by
  rw [List.lookup_eq_none_iff]
  intro entry hentry
  obtain ⟨item, hitem, hread⟩ := List.mem_filterMap.1 hentry
  obtain ⟨value, -, rfl⟩ := Option.map_eq_some_iff.1 hread
  exact bne_iff_ne.2 (h item hitem).symm

theorem lookup_filterMap (h : items.Pairwise fun item other => key item ≠ key other) {item : β}
    (hmem : item ∈ items) :
    (items.filterMap fun item => (read item).map fun value => (key item, value)).lookup
      (key item) = read item := by
  induction items with
  | nil => exact absurd hmem List.not_mem_nil
  | cons first rest ih =>
      obtain ⟨hfirst, hrest⟩ := List.pairwise_cons.1 h
      rw [List.filterMap_cons]
      rcases List.mem_cons.1 hmem with rfl | hlater
      · have hnone : (rest.filterMap fun other => (read other).map fun value =>
            (key other, value)).lookup (key item) = none :=
          lookup_filterMap_of_ne fun other hother => (hfirst other hother).symm
        cases hread : read item with
        | none => exact hnone
        | some value => exact (lookup_cons ..).trans (if_pos rfl)
      · cases hread : read first with
        | none => exact ih hrest hlater
        | some value =>
            refine (lookup_cons ..).trans ?_
            rw [if_neg (hfirst item hlater).symm]
            exact ih hrest hlater

end

end PanelBus.NameMap
