import PanelBus.Json.Value
import PanelBus.Proofs.NameMap
/-!
# Well-formed values

A data text denotes a value whose numbers have 64 bits and whose maps have their entries in rising
order.
-/

namespace PanelBus.Json.Value

/-- The value can be written as a text and read again: its whole numbers have 64 bits, its binary
numbers are finite, and no name occurs twice in a map. -/
inductive WellFormed : Value → Prop where
  | null : WellFormed .null
  | bool (b : Bool) : WellFormed (.bool b)
  | int {n : Int} (hlow : Word.least ≤ n) (hhigh : n < Word.count) : WellFormed (.num (.int n))
  | float {x : Binary64} (h : x.isFinite = true) : WellFormed (.num (.float x))
  | str (s : String) : WellFormed (.str s)
  | arr {items : List Value} (h : ∀ item ∈ items, WellFormed item) : WellFormed (.arr items)
  | obj {entries : Fields} (hrising : entries.Rising) (h : ∀ entry ∈ entries, WellFormed entry.2) :
      WellFormed (.obj entries)

theorem wellFormed_nat {n : Nat} (h : n < Word.count) : WellFormed (.nat n) := by
  have hleast : Word.least ≤ 0 := by decide
  refine .int ?_ ?_ <;> omega

theorem wellFormed_ofEntries {entries : List (String × Value)}
    (h : ∀ entry ∈ entries, entry.2.WellFormed) : WellFormed (.ofEntries entries) := by
  refine .obj (NameMap.rising_ofList entries) fun entry hentry => ?_
  exact h entry (NameMap.mem_of_mem_ofList hentry)

end PanelBus.Json.Value
