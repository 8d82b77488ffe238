import PanelBus.Json.Value
import PanelBus.Proofs.NameMap
/-!
# Values that equal themselves

A value equals itself as data unless something in it is no number.
-/

namespace PanelBus

theorem Binary64.numEq_self {x : Binary64} (h : x.isFinite = true) : x.numEq x = true := by
  cases x with
  | nan => cases h
  | infinity negative => cases h
  | finite negative m e =>
      change (some (compare (inUnits negative m e (min e e)) (inUnits negative m e (min e e))) ==
        some Ordering.eq) = true
      rw [Std.ReflOrd.compare_self]
      rfl

namespace Json.Value

/-- The value equals itself. -/
def Proper (v : Value) : Prop := v.same v = true

variable {items more : List Value} {entries : List (String × Value)}

theorem proper_null : Proper .null := rfl

theorem proper_bool (b : Bool) : Proper (.bool b) := beq_self_eq_true b

theorem proper_int (n : Int) : Proper (.int n) := beq_self_eq_true n

theorem proper_nat (n : Nat) : Proper (.nat n) := proper_int n

theorem proper_str (s : String) : Proper (.str s) := beq_self_eq_true s

theorem proper_float {x : Binary64} (h : x.isFinite = true) : Proper (.float x) :=
  Binary64.numEq_self h

theorem proper_arr_iff : Proper (.arr items) ↔ ∀ item ∈ items, item.Proper := by
  change sameItems items items = true ↔ _
  induction items with
  | nil => exact iff_of_true rfl fun _ hnone => absurd hnone List.not_mem_nil
  | cons item rest ih =>
      rw [sameItems, Bool.and_eq_true, ih, List.forall_mem_cons]
      rfl

theorem proper_obj_iff : Proper (.obj entries) ↔ ∀ entry ∈ entries, entry.2.Proper := by
  change sameEntries entries entries = true ↔ _
  induction entries with
  | nil => exact iff_of_true rfl fun _ hnone => absurd hnone List.not_mem_nil
  | cons entry rest ih =>
      obtain ⟨key, value⟩ := entry
      rw [sameEntries, beq_self_eq_true, Bool.true_and, Bool.and_eq_true, ih,
        List.forall_mem_cons]
      rfl

theorem Proper.append (h : Proper (.arr items)) (hmore : Proper (.arr more)) :
    Proper (.arr (items ++ more)) := by
  rw [proper_arr_iff] at *
  exact List.forall_mem_append.2 ⟨h, hmore⟩

theorem proper_ofOption {value? : Option Value} (h : ∀ v, value? = some v → v.Proper) :
    (ofOption value?).Proper := by
  cases value? with
  | none => exact proper_null
  | some v => exact h v rfl

theorem Proper.get? (h : Proper (.obj entries)) {name : String} {v : Value}
    (hget : NameMap.get? entries name = some v) : v.Proper :=
  proper_obj_iff.1 h _ (NameMap.mem_of_get? hget)

end Json.Value

end PanelBus
