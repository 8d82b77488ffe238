import Mathlib
import PanelBus.Expr.Builtin
import PanelBus.Proofs.Binary64
/-!
# Operators and functions on values

Each operator and each function of the language gives a value or a failure, but for the division of
the least word by `-1`.  Everywhere else arithmetic on words is exact: `answers_onWords`.
-/

namespace PanelBus.Expr

open Json (Value)

variable {α β : Type} {m n : Int}

/-! ## Faults -/

/-- The failure comes of the operands: of their types, or of the numbers that they are. -/
inductive Error.IsFault : Error → Prop where
  | type (fault : TypeFault) : IsFault (.type fault)
  | arithmetic (fault : ArithmeticFault) : IsFault (.arithmetic fault)

attribute [simp] Error.IsFault.type Error.IsFault.arithmetic

theorem Error.IsFault.ne_breakdown {error : Error} (h : error.IsFault) : error ≠ .breakdown := by
  rintro rfl
  cases h

/-- The result is a value, or a failure that comes of the operands. -/
def Contained (result : Except Error α) : Prop := ∀ error, result = .error error → error.IsFault

theorem Contained.ne_breakdown {result : Except Error α} (h : Contained result) :
    result ≠ .error .breakdown := fun hbreak => (h _ hbreak).ne_breakdown rfl

@[simp] theorem contained_ok (a : α) : Contained (.ok a) := nofun

@[simp] theorem contained_pure (a : α) : Contained (pure a) := nofun

@[simp] theorem contained_error {error : Error} :
    Contained (.error error : Except Error α) ↔ error.IsFault := by
  constructor
  · exact fun h => h error rfl
  · intro h other hother
    rwa [← Except.error.inj hother]

@[simp] theorem contained_throw {error : Error} :
    Contained (throw error : Except Error α) ↔ error.IsFault := contained_error

theorem Contained.bind {result : Except Error α} {f : α → Except Error β} (h : Contained result)
    (hf : ∀ a, result = .ok a → Contained (f a)) : Contained (result >>= f) := by
  cases result with
  | error error => exact contained_error.2 (contained_error.1 h)
  | ok a => exact hf a rfl

theorem contained_number (place : String) (v : Value) : Contained (number place v) := by
  unfold number
  split <;> simp

theorem contained_integer (place : String) (v : Value) : Contained (integer place v) := by
  refine (contained_number place v).bind fun x _ => ?_
  cases x with
  | int n => simp
  | float x =>
      dsimp only
      split
      · split <;> simp
      · simp

theorem contained_toValue (x : Scalar) : Contained x.toValue := by
  unfold Scalar.toValue
  split
  · simp
  · split <;> simp

theorem contained_wordOr (fault : ArithmeticFault) (n : Int) : Contained (wordOr fault n) := by
  unfold wordOr
  split <;> simp

theorem contained_elementAt (target position : Value) : Contained (elementAt target position) := by
  unfold elementAt
  split
  · exact (contained_integer _ _).bind fun _ _ => contained_pure _
  · exact contained_pure _
  · exact (contained_integer _ _).bind fun _ _ => contained_pure _
  · simp

theorem contained_fieldOf (target : Value) (field : String) : Contained (fieldOf target field) := by
  unfold fieldOf
  split <;> simp

theorem contained_applyUnary (op : UnaryOp) (v : Value) : Contained (applyUnary op v) := by
  cases op with
  | not => exact contained_ok _
  | neg =>
      refine (contained_number _ _).bind fun x _ => ?_
      cases x with
      | int n => exact contained_wordOr _ _
      | float x => exact contained_toValue _
  | bitNot => exact (contained_integer _ _).bind fun _ _ => contained_pure _

theorem contained_order (place : String) (a b : Value) : Contained (order place a b) := by
  unfold order
  split
  · exact contained_ok _
  · refine (contained_number _ _).bind fun x _ => (contained_number _ _).bind fun y _ => ?_
    split
    · exact contained_pure _
    · split <;> simp

theorem contained_onBinary (op : Arithmetic) (x y : Binary64) : Contained (op.onBinary x y) := by
  unfold Arithmetic.onBinary
  cases op with
  | add | sub | mul => exact contained_toValue _
  | div | rem =>
      dsimp only
      split
      · simp
      · exact contained_toValue _

theorem contained_bitwise (op : Bitwise) (a b : Value) : Contained (op.apply a b) := by
  refine (contained_integer _ _).bind fun m _ => (contained_integer _ _).bind fun n _ => ?_
  unfold Bitwise.onWords
  dsimp only
  split
  · exact contained_ok _
  · exact contained_ok _
  · exact contained_ok _
  · split <;> simp
  · split <;> simp

namespace Builtin

theorem contained_oneArgument (f : Builtin) (args : List Value) :
    Contained (f.oneArgument args) := by
  unfold oneArgument
  split <;> simp

theorem contained_better (wanted : Ordering) (kept next : Value) :
    Contained (better wanted kept next) :=
  (contained_order _ _ _).bind fun _ _ => contained_pure _

theorem contained_bestFrom (f : Builtin) (wanted : Ordering) (kept : Value) (items : List Value) :
    Contained (bestFrom f wanted kept items) := by
  induction items generalizing kept with
  | nil => exact contained_ok _
  | cons next rest ih =>
      exact (contained_number _ _).bind fun _ _ => (contained_better _ _ _).bind fun _ _ => ih _

theorem contained_extremum (f : Builtin) (wanted : Ordering) (args : List Value) :
    Contained (f.extremum wanted args) := by
  unfold extremum
  dsimp only
  split
  · simp
  · exact (contained_number _ _).bind fun _ _ => contained_bestFrom _ _ _ _

theorem contained_toInt (v : Value) : Contained (toInt v) := by
  unfold toInt
  split
  · split
    · split <;> simp
    · simp
  · exact contained_ok _
  · refine (contained_number _ _).bind fun x _ => ?_
    cases x with
    | int n => simp
    | float x =>
        dsimp only
        split
        · split <;> simp
        · simp

theorem contained_toDouble (v : Value) : Contained (toDouble v) := by
  unfold toDouble
  split
  · split
    · exact contained_toValue _
    · simp
  · exact (contained_number _ _).bind fun _ _ => contained_toValue _

theorem contained_apply (f : Builtin) (args : List Value) : Contained (f.apply args) := by
  unfold apply
  cases f with
  | bcdToInt | intToBcd =>
      refine (contained_oneArgument _ _).bind fun v _ => (contained_integer _ _).bind fun n _ => ?_
      split <;> simp
  | len =>
      refine (contained_oneArgument _ _).bind fun v _ => ?_
      split <;> simp
  | min | max => exact contained_extremum _ _ _
  | abs =>
      refine (contained_oneArgument _ _).bind fun v _ => (contained_number _ _).bind fun x _ => ?_
      cases x with
      | int n => exact contained_wordOr _ _
      | float x => exact contained_toValue _
  | int => exact (contained_oneArgument _ _).bind fun v _ => contained_toInt v
  | double => exact (contained_oneArgument _ _).bind fun v _ => contained_toDouble v
  | has =>
      dsimp only
      split <;> simp

end Builtin

/-! ## Arithmetic on words -/

theorem holds_iff (n : Int) : Word.holds n = true ↔ Word.least ≤ n ∧ n ≤ Word.greatest := by
  unfold Word.holds
  rw [Bool.and_eq_true, decide_eq_true_iff, decide_eq_true_iff]

theorem number_int (hn : Word.holds n = true) (place : String) :
    number place (.int n) = .ok (.int n) := by
  unfold number Scalar.ofValue? Value.int
  dsimp only
  rw [if_pos hn]

/-- Of the quotients of words only that of the least one and `-1` is no word. -/
theorem holds_tdiv_iff (hm : Word.holds m = true) (hn : n ≠ 0) :
    Word.holds (m.tdiv n) = false ↔ m = Word.least ∧ n = -1 := by
  have hleast : Word.least = -0x8000000000000000 := rfl
  have hgreatest : Word.greatest = 0x7FFFFFFFFFFFFFFF := rfl
  rw [holds_iff] at hm
  rw [← Bool.not_eq_true, holds_iff]
  constructor
  · intro hlarge
    have hquotient : (m.tdiv n).natAbs = m.natAbs / n.natAbs := Int.natAbs_tdiv m n
    have hself := Nat.div_le_self m.natAbs n.natAbs
    have hdivisor : n.natAbs = 1 := by
      by_contra hone
      have hhalf : m.natAbs / n.natAbs ≤ m.natAbs / 2 :=
        Nat.div_le_div_left (by omega) (by decide)
      omega
    have hleft : m = Word.least := by omega
    refine ⟨hleft, ?_⟩
    rcases Int.natAbs_eq n with hpos | hneg
    · rw [hdivisor] at hpos
      rw [hpos, Int.natCast_one, Int.tdiv_one] at hlarge
      exact absurd hm hlarge
    · rw [hneg, hdivisor]
      rfl
  · rintro ⟨rfl, rfl⟩
    decide

/-- The exact result of the operator, if there is one.  The quotient of a remainder is cut toward
zero, so that the remainder has the sign of the dividend. -/
def Arithmetic.Exact (op : Arithmetic) (m n : Int) (x : ℚ) : Prop :=
  match op with
  | .add => x = m + n
  | .sub => x = m - n
  | .mul => x = m * n
  | .div => n ≠ 0 ∧ x = m / n
  | .rem => ∃ quotient remainder : Int,
      m = quotient * n + remainder ∧ |remainder| < |n| ∧ 0 ≤ remainder * m ∧ x = remainder

/-- The result of an operator on words: a whole number only if it is the exact one, a binary one
where the exact one is no whole number, and a failure where it is no word or where there is none.
One remainder that is a word fails all the same. -/
structure Arithmetic.Answers (op : Arithmetic) (m n : Int) (result : Except Error Value) :
    Prop where
  exact : ∀ k : Int, result = .ok (.int k) → Word.holds k = true ∧ op.Exact m n k
  whole : ∀ k : Int, op.Exact m n k → Word.holds k = true →
    ¬(op = .rem ∧ m = Word.least ∧ n = -1) → result = .ok (.int k)
  fraction : ∀ x : ℚ, op.Exact m n x → (∀ k : Int, x ≠ k) →
    ∃ y : Binary64, y.isFinite = true ∧ result = .ok (.float y)
  overflow : ∀ k : Int, op.Exact m n k → Word.holds k = false →
    result = .error (.arithmetic (.overflowIn op.op.symbol))
  undefined : (∀ x, ¬op.Exact m n x) → result = .error (.arithmetic .divisionByZero)
  unanswered : op = .rem → m = Word.least → n = -1 →
    result = .error (.arithmetic (.overflowIn op.op.symbol))

namespace Arithmetic

/-- A remainder has the sign of the dividend. -/
theorem tmod_mul_nonneg (m n : Int) : 0 ≤ m.tmod n * m := by
  rcases le_total 0 m with hpos | hneg
  · exact mul_nonneg (Int.tmod_nonneg n hpos) hpos
  · refine mul_nonneg_of_nonpos_of_nonpos ?_ hneg
    have hflip := Int.tmod_nonneg n (neg_nonneg.2 hneg)
    rw [Int.neg_tmod] at hflip
    exact neg_nonneg.1 hflip

theorem holds_tmod (hm : Word.holds m = true) (n : Int) : Word.holds (m.tmod n) = true := by
  have hleast : Word.least = -0x8000000000000000 := rfl
  have hgreatest : Word.greatest = 0x7FFFFFFFFFFFFFFF := rfl
  have hle := Nat.mod_le m.natAbs n.natAbs
  rw [← Int.natAbs_tmod] at hle
  rw [holds_iff] at hm ⊢
  rcases le_or_gt 0 m with hpos | hneg
  · omega
  · have hsign := nonpos_of_mul_nonneg_left (tmod_mul_nonneg m n) hneg
    omega

theorem exact_rem_iff (hn : n ≠ 0) (x : ℚ) : Arithmetic.rem.Exact m n x ↔ x = m.tmod n := by
  constructor
  · rintro ⟨quotient, remainder, hsum, hsize, hsign, rfl⟩
    rw [abs_lt, Int.abs_eq_natAbs] at hsize
    have hunique : m.tmod n = remainder := by
      rcases lt_trichotomy m 0 with hneg | rfl | hpos
      · have hbelow : remainder ≤ 0 := nonpos_of_mul_nonneg_left hsign hneg
        exact ((Int.tdiv_tmod_unique' (q := quotient) hneg.le hn).2
          ⟨by rw [hsum]; ring, hsize.1, hbelow⟩).2
      · have hdvd : (n.natAbs : Int) ∣ remainder := by
          rw [Int.natAbs_dvd]
          exact ⟨-quotient, by linarith [mul_comm quotient n]⟩
        rw [Int.eq_zero_of_abs_lt_dvd hdvd (abs_lt.2 hsize), Int.zero_tmod]
      · have habove : 0 ≤ remainder := nonneg_of_mul_nonneg_left hsign hpos
        exact ((Int.tdiv_tmod_unique (q := quotient) hpos.le hn).2
          ⟨by rw [hsum]; ring, habove, hsize.2⟩).2
    rw [hunique]
  · rintro rfl
    refine ⟨m.tdiv n, m.tmod n, (Int.tdiv_mul_add_tmod m n).symm, ?_, ?_, rfl⟩
    · rw [Int.abs_eq_natAbs, Int.abs_eq_natAbs, Int.natAbs_tmod]
      exact Int.ofNat_lt.2 (Nat.mod_lt _ (Int.natAbs_pos.2 hn))
    · exact tmod_mul_nonneg m n

theorem not_exact_rem_zero (x : ℚ) : ¬Arithmetic.rem.Exact m 0 x := by
  rintro ⟨quotient, remainder, _, hsize, _⟩
  rw [abs_zero] at hsize
  exact absurd hsize (not_lt.2 (abs_nonneg remainder))

variable {op : Arithmetic} {result : Except Error Value}

/-- A whole exact result is answered if it is a word, and fails otherwise. -/
theorem Answers.of_whole {k : Int} (hexact : ∀ x, op.Exact m n x ↔ x = k)
    (hresult : result = wordOr (.overflowIn op.op.symbol) k)
    (hpair : ¬(op = .rem ∧ m = Word.least ∧ n = -1)) : op.Answers m n result := by
  have hself : ∀ other : Int, op.Exact m n other → other = k :=
    fun other hother => Int.cast_injective ((hexact other).1 hother)
  unfold wordOr at hresult
  refine ⟨?_, ?_, ?_, ?_, ?_, ?_⟩
  · rintro other rfl
    split at hresult
    · next hword =>
      cases hresult
      exact ⟨hword, (hexact k).2 rfl⟩
    · cases hresult
  · intro other hother hword _
    rw [hself other hother] at hword ⊢
    rw [hresult, if_pos hword]
  · intro x hx hfraction
    exact absurd ((hexact x).1 hx) (hfraction k)
  · intro other hother hword
    rw [hself other hother] at hword
    rw [hresult, hword]
    rfl
  · intro hnone
    exact absurd ((hexact k).2 rfl) (hnone k)
  · intro hrem hm hn
    exact absurd ⟨hrem, hm, hn⟩ hpair

/-- Without an exact result there is a division by zero. -/
theorem Answers.of_undefined (hnone : ∀ x, ¬op.Exact m n x)
    (hresult : result = .error (.arithmetic .divisionByZero))
    (hpair : ¬(op = .rem ∧ m = Word.least ∧ n = -1)) : op.Answers m n result := by
  subst hresult
  exact ⟨nofun, fun k hk => absurd hk (hnone k), fun x hx => absurd hx (hnone x),
    fun k hk => absurd hk (hnone k), fun _ => rfl, fun hrem hm hn => absurd ⟨hrem, hm, hn⟩ hpair⟩

/-- A quotient that is no whole number is answered by a binary number. -/
theorem Answers.of_fraction (hn : n ≠ 0) (hfraction : ¬n ∣ m) {y : Binary64}
    (hfinite : y.isFinite = true) (hresult : result = .ok (.float y)) :
    Arithmetic.div.Answers m n result := by
  have hnone : ∀ k : Int, ¬Arithmetic.div.Exact m n k := by
    rintro k ⟨_, hk⟩
    rw [eq_div_iff (Int.cast_ne_zero.2 hn)] at hk
    have hproduct : k * n = m := by exact_mod_cast hk
    exact hfraction (hproduct ▸ dvd_mul_left n k)
  subst hresult
  refine ⟨nofun, fun k hk => absurd hk (hnone k), fun x _ _ => ⟨y, hfinite, rfl⟩,
    fun k hk => absurd hk (hnone k), fun hempty => ?_, nofun⟩
  exact absurd ⟨hn, rfl⟩ (hempty (m / n))

theorem answers_div (hm : Word.holds m = true) (hn : Word.holds n = true)
    (hpair : ¬(m = Word.least ∧ n = -1)) :
    Arithmetic.div.Answers m n (Arithmetic.div.onWords m n) := by
  unfold onWords
  dsimp only
  by_cases hzero : n = 0
  · refine Answers.of_undefined (fun x hx => hx.1 hzero) (if_pos hzero) nofun
  · have hword : Word.holds (m.tdiv n) = true :=
      eq_true_of_ne_false fun hlarge => hpair ((holds_tdiv_iff hm hzero).1 hlarge)
    rw [if_neg hzero, hword]
    by_cases hdvd : m.tmod n = 0
    · refine Answers.of_whole (k := m.tdiv n) (fun x => ?_) ?_ nofun
      · have hproduct : (m.tdiv n : ℚ) * n = m := by
          exact_mod_cast Int.tdiv_mul_cancel_of_tmod_eq_zero hdvd
        have hquotient : (m / n : ℚ) = m.tdiv n :=
          (div_eq_iff (Int.cast_ne_zero.2 hzero)).2 hproduct.symm
        exact ⟨fun hx => hx.2.trans hquotient, fun hx => ⟨hzero, hx.trans hquotient.symm⟩⟩
      · rw [if_pos hdvd, wordOr, if_pos hword]
        rfl
    · have hdividend : m ≠ 0 := by
        rintro rfl
        exact hdvd (Int.zero_tmod n)
      have hleast : Word.least = -0x8000000000000000 := rfl
      have hgreatest : Word.greatest = 0x7FFFFFFFFFFFFFFF := rfl
      rw [holds_iff] at hm hn
      have hfinite := Binary64.isFinite_div_ofInt hdividend hzero (by omega) (by omega)
      refine Answers.of_fraction hzero (fun h => hdvd (Int.dvd_iff_tmod_eq_zero.1 h)) hfinite ?_
      rw [if_neg hdvd, Scalar.toValue, if_pos hfinite]
      rfl

theorem answers_rem (hm : Word.holds m = true) :
    Arithmetic.rem.Answers m n (Arithmetic.rem.onWords m n) := by
  unfold onWords
  dsimp only
  by_cases hzero : n = 0
  · subst hzero
    exact Answers.of_undefined not_exact_rem_zero (if_pos rfl) nofun
  · rw [if_neg hzero]
    by_cases hpair : m = Word.least ∧ n = -1
    · obtain ⟨rfl, rfl⟩ := hpair
      refine ⟨nofun, fun k _ _ hpair => absurd ⟨rfl, rfl, rfl⟩ hpair, fun x hx hfraction => ?_,
        fun k _ _ => rfl, fun hnone => ?_, fun _ _ _ => rfl⟩
      · exact absurd ((exact_rem_iff hzero x).1 hx) (hfraction _)
      · exact absurd ((exact_rem_iff hzero _).2 rfl) (hnone _)
    · have hword : Word.holds (m.tdiv n) = true :=
        eq_true_of_ne_false fun hlarge => hpair ((holds_tdiv_iff hm hzero).1 hlarge)
      refine Answers.of_whole (exact_rem_iff hzero) ?_ fun h => hpair h.2
      rw [hword, wordOr, if_pos (holds_tmod hm n)]
      rfl

theorem answers_onWords (op : Arithmetic) (hm : Word.holds m = true) (hn : Word.holds n = true)
    (hpair : ¬(op = .div ∧ m = Word.least ∧ n = -1)) : op.Answers m n (op.onWords m n) := by
  cases op with
  | add => exact Answers.of_whole (fun x => by rw [Exact, Int.cast_add]) rfl nofun
  | sub => exact Answers.of_whole (fun x => by rw [Exact, Int.cast_sub]) rfl nofun
  | mul => exact Answers.of_whole (fun x => by rw [Exact, Int.cast_mul]) rfl nofun
  | div => exact answers_div hm hn fun h => hpair ⟨rfl, h⟩
  | rem => exact answers_rem hm

/-- Arithmetic on words breaks off at one division only. -/
theorem contained_onWords (op : Arithmetic) (hm : Word.holds m = true)
    (hpair : ¬(op = .div ∧ m = Word.least ∧ n = -1)) : Contained (op.onWords m n) := by
  unfold onWords
  cases op with
  | add | sub | mul => exact contained_wordOr _ _
  | div =>
      dsimp only
      split
      · simp
      · next hzero =>
        have hword : Word.holds (m.tdiv n) = true := by
          refine eq_true_of_ne_false fun hlarge => ?_
          exact hpair ⟨rfl, (holds_tdiv_iff hm hzero).1 hlarge⟩
        rw [hword]
        split
        · next hlarge => cases hlarge
        · split
          · exact contained_ok _
          · exact contained_toValue _
  | rem =>
      dsimp only
      split
      · simp
      · split <;> simp

theorem apply_int (op : Arithmetic) (hm : Word.holds m = true) (hn : Word.holds n = true) :
    op.apply (.int m) (.int n) = op.onWords m n := by
  unfold apply
  rw [number_int hm, number_int hn]
  rfl

theorem exists_of_number {place : String} {v : Value} (h : number place v = .ok (.int n)) :
    v = .int n ∧ Word.holds n = true := by
  unfold number Scalar.ofValue? at h
  split at h
  · next scalar hscalar =>
    obtain rfl := Except.ok.inj h
    split at hscalar
    · split at hscalar
      · next hword =>
        cases hscalar
        exact ⟨rfl, hword⟩
      · cases hscalar
    · cases hscalar
    · cases hscalar
  · cases h

theorem contained_arithmetic (op : Arithmetic) {a b : Value}
    (hpair : ¬(op = .div ∧ a = .int Word.least ∧ b = .int (-1))) : Contained (op.apply a b) := by
  unfold apply
  refine (contained_number _ a).bind fun x hx => (contained_number _ b).bind fun y hy => ?_
  split
  · next m n =>
    obtain ⟨rfl, hm⟩ := exists_of_number hx
    obtain ⟨rfl, -⟩ := exists_of_number hy
    refine contained_onWords op hm fun h => hpair ?_
    obtain ⟨hop, rfl, rfl⟩ := h
    exact ⟨hop, rfl, rfl⟩
  · exact contained_onBinary _ _ _

end Arithmetic

/-! ## Operators on values -/

theorem contained_map {result : Except Error α} {f : α → β} (h : Contained result) :
    Contained (result.map f) := by
  cases result with
  | ok a => exact contained_ok _
  | error error => exact contained_error.2 (contained_error.1 h)

theorem contained_plus (a b : Value) : Contained (plus a b) := by
  unfold plus
  split
  · exact contained_ok _
  · exact contained_ok _
  · exact contained_ok _
  · exact Arithmetic.contained_arithmetic _ nofun

theorem contained_applyBinary (op : BinaryOp) {a b : Value}
    (hpair : ¬(op = .div ∧ a = .int Word.least ∧ b = .int (-1))) :
    Contained (applyBinary op a b) := by
  cases op with
  | or | and | eq | ne => exact contained_ok _
  | lt | le | gt | ge => exact contained_map (contained_order _ _ _)
  | bitOr | bitXor | bitAnd | shl | shr => exact contained_bitwise _ _ _
  | add => exact contained_plus a b
  | sub | mul | rem => exact Arithmetic.contained_arithmetic _ nofun
  | div => exact Arithmetic.contained_arithmetic _ fun h => hpair ⟨rfl, h.2⟩

/-- Of all operators only division breaks the evaluation off, on one pair of values. -/
theorem applyBinary_eq_breakdown_iff (op : BinaryOp) (a b : Value) :
    applyBinary op a b = .error .breakdown ↔
      op = .div ∧ a = .int Word.least ∧ b = .int (-1) := by
  constructor
  · intro hbreaks
    by_contra hpair
    exact (contained_applyBinary op hpair).ne_breakdown hbreaks
  · rintro ⟨rfl, rfl, rfl⟩
    rfl

theorem applyBinary_int (op : Arithmetic) (hm : Word.holds m = true) (hn : Word.holds n = true) :
    applyBinary op.op (.int m) (.int n) = op.onWords m n := by
  rw [← op.apply_int hm hn]
  cases op <;> rfl

end PanelBus.Expr
