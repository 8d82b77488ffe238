import PanelBus.Bytes
import PanelBus.Word
/-!
# Cuts of octets

Where a cut begins and ends is found by adding up offsets and lengths.  A sum that is no word lies
beyond every buffer, so it makes no difference whether the sums are kept in words.
-/

namespace PanelBus

namespace Word

/-- A number that has to lie below a bound. -/
def fit? (bound n : Nat) : Option Nat := if n < bound then some n else none

variable {bound n : Nat}

theorem fit?_of_lt (h : n < bound) : fit? bound n = some n := if_pos h

theorem fit?_of_le (h : bound ≤ n) : fit? bound n = none := if_neg (Nat.not_lt.2 h)

end Word

namespace Bytes

variable {bytes other part : Bytes} {start place len : Nat}

theorem slice?_eq_none_iff : bytes.slice? start len = none ↔ bytes.length < start + len := by
  unfold slice?
  split
  · next hfit => exact iff_of_false (Option.some_ne_none _) (by omega)
  · next hfit => exact iff_of_true rfl (by omega)

theorem le_length_of_slice? (h : bytes.slice? start len = some part) :
    start + len ≤ bytes.length := by
  unfold slice? at h
  split at h
  · next hfit => exact hfit
  · cases h

theorem getElem?_of_slice? (h : bytes.slice? start len = some part) {i : Nat} (hi : i < len) :
    part[i]? = bytes[start + i]? := by
  unfold slice? at h
  split at h
  · cases h
    rw [List.getElem?_take_of_lt hi, List.getElem?_drop]
  · cases h

/-- A cut depends on its own octets only. -/
theorem slice?_congr (hlen : 0 < len) (h : ∀ i < len, bytes[start + i]? = other[place + i]?) :
    bytes.slice? start len = other.slice? place len := by
  -- The last octet exists in both or in neither.
  have hfit : start + len ≤ bytes.length ↔ place + len ≤ other.length := by
    have hlast : bytes[start + (len - 1)]? = none ↔ other[place + (len - 1)]? = none := by
      rw [h (len - 1) (by omega)]
    rw [List.getElem?_eq_none_iff, List.getElem?_eq_none_iff] at hlast
    omega
  unfold slice?
  by_cases hbytes : start + len ≤ bytes.length
  · rw [if_pos hbytes, if_pos (hfit.1 hbytes)]
    refine congrArg some (List.ext_getElem? fun i => ?_)
    rw [List.getElem?_take, List.getElem?_take, List.getElem?_drop, List.getElem?_drop]
    split
    · next hi => exact h i hi
    · rfl
  · rw [if_neg hbytes, if_neg (mt hfit.2 hbytes)]

/-- The octets between two words, of which the first is a sum of two and the second lies so many
behind it; with sums that are no words there are none. -/
def cutOnWords? (bytes : Bytes) (first second len : Nat) : Option Bytes := do
  let start ← Word.fit? Word.count (first + second)
  let stop ← Word.fit? Word.count (start + len)
  if stop ≤ bytes.length then some ((bytes.drop start).take (stop - start)) else none

/-- A sum beyond the words lies beyond every buffer as well. -/
theorem cutOnWords?_eq_slice? (first second len : Nat) (hbytes : bytes.length < Word.count) :
    bytes.cutOnWords? first second len = bytes.slice? (first + second) len := by
  unfold cutOnWords? slice?
  by_cases hstart : first + second < Word.count
  · rw [Word.fit?_of_lt hstart, Option.bind_eq_bind, Option.bind_some]
    by_cases hstop : first + second + len < Word.count
    · rw [Word.fit?_of_lt hstop, Option.bind_some, Nat.add_sub_cancel_left]
    · rw [Word.fit?_of_le (by omega), if_neg (by omega)]
      rfl
  · rw [Word.fit?_of_le (by omega), if_neg (by omega)]
    rfl

end Bytes

end PanelBus
