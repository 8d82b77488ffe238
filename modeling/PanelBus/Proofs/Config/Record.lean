import Mathlib.Data.List.Forall2
import PanelBus.Config.Writer
import PanelBus.Proofs.Json.WellFormed
/-!
# Members of records

What a record is written with is found again member by member, whatever the order of the entries in
the map is.  In the other direction, whatever holds of all that a reader may read holds of the
member of a record that it has read.
-/

namespace PanelBus.Config

open Json (Value Fields)

variable {α β : Type} {fields : Fields} {key : String} {keys : List String}
  {build : Fields → Checked α} {read : Value → Result α} {write : α → Value} {a default : α}
  {a? : Option α} {v : Value}

/-! ## Results -/

theorem bind_eq_ok_iff {result : Result α} {f : α → Result β} {b : β} :
    result >>= f = .ok b ↔ ∃ a, result = .ok a ∧ f a = .ok b := by
  cases result with
  | error error => exact iff_of_false nofun nofun
  | ok a => exact ⟨fun h => ⟨a, rfl, h⟩, fun ⟨_, ha, h⟩ => by rwa [← Except.ok.inj ha] at h⟩

/-- A list is read item by item. -/
theorem mapM_eq_ok_iff {read : α → Result β} {items : List α} {results : List β} :
    items.mapM read = .ok results ↔
      List.Forall₂ (fun item b => read item = .ok b) items results := by
  induction items generalizing results with
  | nil =>
      rw [List.forall₂_nil_left_iff]
      exact ⟨fun h => (Except.ok.inj h).symm, fun h => congrArg Except.ok h.symm⟩
  | cons item rest ih =>
      rw [List.mapM_cons, List.forall₂_cons_left_iff]
      simp only [bind_eq_ok_iff, ih, pure, Except.pure, Except.ok.injEq, exists_and_left,
        eq_comm (a := results)]

/-! ## Written members -/

/-- What is written for the value is a data value other than null, from which reading gives the
value back. -/
structure Regains (read : Value → Result α) (write : α → Value) (a : α) : Prop where
  read_write : read (write a) = .ok a
  ne_null : write a ≠ .null
  wellFormed : (write a).WellFormed

theorem record_obj (h : build fields = .ok a) : record keys build (.obj fields) = .ok a :=
  Checked.resolve_eq_ok_iff.2 h

section

variable (fields : Fields) (key : String)

theorem member_of_some (h : Regains read write a) (hmember : fields.get? key = some (write a)) :
    member fields key default read = .ok a := by
  unfold member
  rw [hmember]
  dsimp only
  rw [h.read_write]
  rfl

theorem member_of_none (hmember : fields.get? key = none) :
    member fields key default read = .ok default := by
  unfold member
  rw [hmember]

theorem required_of_some (h : Regains read write a) (hmember : fields.get? key = some (write a)) :
    required fields key read = .ok a := by
  unfold required
  rw [hmember]
  dsimp only
  rw [h.read_write]
  rfl

end

theorem Regains.readOption (h : Regains read write a) :
    readOption read (write a) = .ok (some a) := by
  unfold Config.readOption
  split
  · next hnull => exact absurd hnull h.ne_null
  · rw [h.read_write]
    rfl

theorem readOption_written (h : ∀ a ∈ a?, Regains read write a) :
    readOption read (writeOption write a?) = .ok a? := by
  cases a? with
  | none => rfl
  | some a => exact (h a rfl).readOption

theorem wellFormed_writeOption (h : ∀ a ∈ a?, Regains read write a) :
    (writeOption write a?).WellFormed := by
  cases a? with
  | none => exact .null
  | some a => exact (h a rfl).wellFormed

theorem wellFormed_entryIf (key : String) (h : ∀ a ∈ a?, Regains read write a) :
    ∀ entry ∈ entryIf key write a?, entry.2.WellFormed := by
  cases a? with
  | none => exact nofun
  | some a => exact List.forall_mem_singleton.2 (h a rfl).wellFormed

section

variable (fields : Fields) (key : String)

/-- A member that is null when it is absent. -/
theorem optional_of_written (h : ∀ a ∈ a?, Regains read write a)
    (hmember : fields.get? key = some (writeOption write a?)) :
    optional fields key read = .ok a? := by
  unfold optional member
  rw [hmember]
  dsimp only
  rw [readOption_written h]
  rfl

/-- A member that is left out when it is absent. -/
theorem optional_of_entry (h : ∀ a ∈ a?, Regains read write a)
    (hmember : fields.get? key = a?.map write) : optional fields key read = .ok a? := by
  cases a? with
  | none => exact member_of_none fields key hmember
  | some a => exact optional_of_written fields key h hmember

end

/-! ### Finding members -/

theorem get?_of_entries {entries : List (String × Value)} (h : NameMap.ofList entries = fields)
    (key : String) : fields.get? key = entries.reverse.lookup key := by
  rw [← h, NameMap.get?_ofList]

/-- A record is read again if its members are found in any map with its entries. -/
theorem regains_record {entries : List (String × Value)} (hwrite : write a = .ofEntries entries)
    (hentries : ∀ entry ∈ entries, entry.2.WellFormed)
    (hbuild : ∀ fields : Fields, (∀ key, fields.get? key = entries.reverse.lookup key) →
      build fields = .ok a) : Regains (record keys build) write a := by
  refine ⟨?_, ?_, ?_⟩ <;> rw [hwrite]
  · exact record_obj (hbuild _ (get?_of_entries rfl))
  · exact nofun
  · exact Value.wellFormed_ofEntries hentries

@[simp] theorem lookup_entryIf (name : String) (write : α → Value) (a? : Option α) (key : String) :
    (entryIf name write a?).reverse.lookup key = if key = name then a?.map write else none := by
  unfold entryIf
  cases a? with
  | none => exact (ite_self none).symm
  | some a => exact NameMap.lookup_cons key name (write a) []

@[simp] theorem lookup_unless (c : Prop) [Decidable c] (name : String) (v : Value) (key : String) :
    (if c then [] else [(name, v)]).reverse.lookup key =
      if key = name ∧ ¬c then some v else none := by
  by_cases hc : c
  · rw [if_pos hc, if_neg fun h => h.2 hc]
    rfl
  · simp only [hc, not_false_eq_true, and_true]
    exact NameMap.lookup_cons key name v []

@[simp] theorem lookup_textsIf (name : String) (texts : NameMap String) (key : String) :
    (textsIf name texts).reverse.lookup key =
      if key = name ∧ texts ≠ [] then some (writeTexts texts) else none := by
  refine (lookup_unless _ name _ key).trans ?_
  simp only [List.isEmpty_iff, ne_eq]

/-! ## Members that were read -/

theorem Checked.map_eq_ok_iff {f : α → β} {checked : Checked α} {b : β} :
    f <$> checked = .ok b ↔ ∃ a, checked = .ok a ∧ f a = b := by
  cases checked with
  | ok a => simp
  | faulty faults => exact iff_of_false nofun nofun

theorem Checked.seq_eq_ok_iff {f : Checked (α → β)} {checked : Checked α} {b : β} :
    f <*> checked = .ok b ↔ ∃ g, f = .ok g ∧ ∃ a, checked = .ok a ∧ g a = b := by
  cases f with
  | faulty faults =>
      refine iff_of_false ?_ nofun
      cases checked <;> exact nofun
  | ok g =>
      cases checked with
      | ok a => simp
      | faulty more => exact iff_of_false nofun nofun

theorem Checked.ofResult_eq_ok_iff {result : Result α} :
    Checked.ofResult key result = .ok a ↔ result = .ok a := by
  cases result <;> simp [Checked.ofResult]

/-- Whatever is read from a well-formed value has the property. -/
def Gives (read : Value → Result α) (P : α → Prop) : Prop :=
  ∀ v a, v.WellFormed → read v = .ok a → P a

variable {P : α → Prop}

/-- The members of a record are well formed. -/
def MembersWellFormed (fields : Fields) : Prop := ∀ entry ∈ fields, entry.2.WellFormed

theorem MembersWellFormed.get? (h : MembersWellFormed fields) (hmember : fields.get? key = some v) :
    v.WellFormed := h _ (NameMap.mem_of_get? hmember)

theorem Gives.member (h : Gives read P) (hdefault : P default) (hfields : MembersWellFormed fields)
    (hread : member fields key default read = .ok a) : P a := by
  unfold Config.member at hread
  split at hread
  · next v hmember => exact h v a (hfields.get? hmember) (Checked.ofResult_eq_ok_iff.1 hread)
  · rwa [← Checked.ok.inj hread]

theorem Gives.readOption (h : Gives read P) : Gives (readOption read) fun a? => ∀ a ∈ a?, P a := by
  intro v a? hv hread a ha
  obtain rfl : a? = some a := ha
  unfold Config.readOption at hread
  split at hread
  · cases hread
  · cases hresult : read v with
    | error error =>
        rw [hresult] at hread
        cases hread
    | ok other =>
        rw [hresult] at hread
        obtain rfl := Option.some.inj (Except.ok.inj hread)
        exact h v other hv hresult

theorem Gives.optional (h : Gives read P) (hfields : MembersWellFormed fields)
    (hread : optional fields key read = .ok a?) : ∀ a ∈ a?, P a := by
  have hnone : ∀ a ∈ (none : Option α), P a := fun a ha => nomatch ha
  exact h.readOption.member hnone hfields hread

/-- A record is made of its members, whether they stand in a map or in a list. -/
theorem exists_of_record (h : record keys build v = .ok a) :
    ∃ fields, build fields = .ok a ∧ (v.WellFormed → MembersWellFormed fields) := by
  unfold record at h
  split at h
  · next entries =>
    refine ⟨entries, Checked.resolve_eq_ok_iff.1 h, fun hv => ?_⟩
    cases hv with
    | obj hrising hentries => exact hentries
  · next items =>
    refine ⟨keys.zip items, ?_, fun hv entry hentry => ?_⟩
    · cases hbuild : build (keys.zip items) with
      | faulty faults =>
          rw [hbuild] at h
          cases h
      | ok other =>
          rw [hbuild] at h
          dsimp only [Checked.resolve, bind, Except.bind] at h
          split at h
          · exact congrArg Checked.ok (Except.ok.inj h)
          · cases h
    · cases hv with
      | arr hitems => exact hitems entry.2 (List.of_mem_zip hentry).2
  · cases h

theorem gives_record (h : ∀ fields a, MembersWellFormed fields → build fields = .ok a → P a) :
    Gives (record keys build) P := by
  intro v a hv hread
  obtain ⟨fields, hbuild, hfields⟩ := exists_of_record hread
  exact h fields a (hfields hv) hbuild

end PanelBus.Config
