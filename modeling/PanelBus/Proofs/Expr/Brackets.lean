import PanelBus.Expr.Parser
/-!
# Brackets and quotes

Brackets count only outside of quoted texts.  The limit on nesting is checked on the bare characters
of a source; here is what that says of the brackets that are open at some character.
-/

namespace PanelBus.Expr.Grammar

/-- The two marks that quote a text. -/
inductive Quote where
  | single
  | double
deriving DecidableEq

/-- The mark as a character. -/
def Quote.char : Quote → Char
  | .single => '\x27'
  | .double => '"'

/-- Where a character stands with respect to quoted texts. -/
inductive Quoting where
  | outside
  | inside (quote : Quote)
  /-- Behind a backslash inside. -/
  | escaped (quote : Quote)
deriving DecidableEq

namespace Quoting

/-- The place behind one more character. -/
def step : Quoting → Char → Quoting
  | .outside, c =>
    if c = '"' then .inside .double else if c = '\x27' then .inside .single else .outside
  | .inside quote, c =>
    if c = quote.char then .outside else if c = '\\' then .escaped quote else .inside quote
  | .escaped quote, _ => .inside quote

/-- The place behind a text. -/
def after (q : Quoting) (s : List Char) : Quoting := s.foldl step q

@[simp] theorem after_nil (q : Quoting) : q.after [] = q := rfl

@[simp] theorem after_cons (q : Quoting) (c : Char) (s : List Char) :
    q.after (c :: s) = (q.step c).after s := rfl

@[simp] theorem after_append (q : Quoting) (s t : List Char) :
    q.after (s ++ t) = (q.after s).after t := List.foldl_append

end Quoting

/-- What a character adds to the number of open brackets. -/
def weight (c : Char) : Int :=
  if c = '(' ∨ c = '[' then 1 else if c = ')' ∨ c = ']' then -1 else 0

/-- What a character adds at its place. -/
def weightAt (q : Quoting) (c : Char) : Int := if q = .outside then weight c else 0

/-- The brackets that a text opens, less those that it closes, from a place on. -/
def unclosedFrom (q : Quoting) : List Char → Int
  | [] => 0
  | c :: rest => weightAt q c + unclosedFrom (q.step c) rest

/-- The most brackets that are open in a text at once. -/
def peakFrom (q : Quoting) : List Char → Int
  | [] => 0
  | c :: rest => max 0 (weightAt q c + peakFrom (q.step c) rest)

/-- The fewest brackets that are open in a text, below zero if it closes more than it opens. -/
def lowFrom (q : Quoting) : List Char → Int
  | [] => 0
  | c :: rest => min 0 (weightAt q c + lowFrom (q.step c) rest)

/-- The brackets outside of quoted texts that are open behind a text. -/
def unclosed (s : List Char) : Int := unclosedFrom .outside s

variable {q : Quoting} {s t u : List Char}

theorem unclosedFrom_append (q : Quoting) (s t : List Char) :
    unclosedFrom q (s ++ t) = unclosedFrom q s + unclosedFrom (q.after s) t := by
  induction s generalizing q with
  | nil => exact (Int.zero_add _).symm
  | cons c rest ih =>
      rw [List.cons_append, unclosedFrom, ih, unclosedFrom, Quoting.after_cons, Int.add_assoc]

theorem peakFrom_nonneg (q : Quoting) (s : List Char) : 0 ≤ peakFrom q s := by
  cases s with
  | nil => exact Int.le_refl 0
  | cons c rest => exact Int.le_max_left _ _

theorem peakFrom_append (q : Quoting) (s t : List Char) :
    peakFrom q (s ++ t) = max (peakFrom q s) (unclosedFrom q s + peakFrom (q.after s) t) := by
  induction s generalizing q with
  | nil =>
      have hpos := peakFrom_nonneg q t
      rw [List.nil_append, peakFrom, unclosedFrom, Quoting.after_nil]
      omega
  | cons c rest ih =>
      rw [List.cons_append, peakFrom, ih, peakFrom, unclosedFrom, Quoting.after_cons]
      omega

theorem lowFrom_nonpos (q : Quoting) (s : List Char) : lowFrom q s ≤ 0 := by
  cases s with
  | nil => exact Int.le_refl 0
  | cons c rest => exact Int.min_le_left _ _

theorem lowFrom_append (q : Quoting) (s t : List Char) :
    lowFrom q (s ++ t) = min (lowFrom q s) (unclosedFrom q s + lowFrom (q.after s) t) := by
  induction s generalizing q with
  | nil =>
      have hneg := lowFrom_nonpos q t
      rw [List.nil_append, lowFrom, unclosedFrom, Quoting.after_nil]
      omega
  | cons c rest ih =>
      rw [List.cons_append, lowFrom, ih, lowFrom, unclosedFrom, Quoting.after_cons]
      omega

theorem unclosedFrom_bounds (q : Quoting) (s : List Char) :
    lowFrom q s ≤ unclosedFrom q s ∧ unclosedFrom q s ≤ peakFrom q s := by
  induction s generalizing q with
  | nil => exact ⟨Int.le_refl 0, Int.le_refl 0⟩
  | cons c rest ih =>
      have hrest := ih (q.step c)
      rw [lowFrom, unclosedFrom, peakFrom]
      omega

theorem unclosedFrom_le_peak (q : Quoting) (h : t <+: s) : unclosedFrom q t ≤ peakFrom q s := by
  obtain ⟨u, rfl⟩ := h
  have hle := (unclosedFrom_bounds q t).2
  rw [peakFrom_append]
  omega

theorem low_le_unclosedFrom (q : Quoting) (h : t <+: s) : lowFrom q s ≤ unclosedFrom q t := by
  obtain ⟨u, rfl⟩ := h
  have hle := (unclosedFrom_bounds q t).1
  rw [lowFrom_append]
  omega

theorem exists_unclosedFrom_eq (q : Quoting) (s : List Char) :
    ∃ t, t <+: s ∧ unclosedFrom q t = peakFrom q s := by
  induction s generalizing q with
  | nil => exact ⟨[], List.prefix_rfl, rfl⟩
  | cons c rest ih =>
      obtain ⟨t, ht, heq⟩ := ih (q.step c)
      rw [peakFrom]
      rcases Int.le_total (weightAt q c + peakFrom (q.step c) rest) 0 with hle | hle
      · exact ⟨[], List.nil_prefix, by rw [unclosedFrom]; omega⟩
      · refine ⟨c :: t, (List.prefix_cons_inj c).2 ht, ?_⟩
        rw [unclosedFrom, heq]
        omega

/-! ## Texts that close what they open -/

/-- The text closes its quotes and its brackets, in order, and at most that many brackets are open
in it at once. -/
structure Closes (t : List Char) (peak : Nat) : Prop where
  quoting : Quoting.outside.after t = .outside
  unclosed : unclosedFrom .outside t = 0
  low : lowFrom .outside t = 0
  peak : peakFrom .outside t = peak

theorem closes_nil : Closes [] 0 := ⟨rfl, rfl, rfl, rfl⟩

theorem Closes.append {b c : Nat} (ht : Closes t b) (hu : Closes u c) :
    Closes (t ++ u) (max b c) where
  quoting := by rw [Quoting.after_append, ht.quoting, hu.quoting]
  unclosed := by
    rw [unclosedFrom_append, ht.unclosed, ht.quoting, hu.unclosed]
    rfl
  low := by
    rw [lowFrom_append, ht.low, ht.unclosed, ht.quoting, hu.low]
    rfl
  peak := by
    rw [peakFrom_append, ht.peak, ht.unclosed, ht.quoting, hu.peak]
    omega

/-- The character is no bracket and no quote. -/
def Plain (c : Char) : Prop := c ∉ ['(', '[', ')', ']', '"', '\x27']

instance (c : Char) : Decidable (Plain c) := inferInstanceAs (Decidable (c ∉ _))

theorem Plain.step {c : Char} (h : Plain c) :
    Quoting.outside.step c = .outside ∧ weightAt .outside c = 0 := by
  simp only [Plain, List.mem_cons, List.not_mem_nil, or_false, not_or] at h
  obtain ⟨h₁, h₂, h₃, h₄, h₅, h₆⟩ := h
  unfold Quoting.step weightAt weight
  dsimp only
  rw [if_neg h₅, if_neg h₆, if_pos rfl, if_neg (not_or.2 ⟨h₁, h₂⟩), if_neg (not_or.2 ⟨h₃, h₄⟩)]
  exact ⟨rfl, rfl⟩

theorem forall_plain (h : t.all (fun c => decide (Plain c)) = true) : ∀ c ∈ t, Plain c :=
  fun c hc => of_decide_eq_true (List.all_eq_true.1 h c hc)

theorem closes_plain (h : ∀ c ∈ t, Plain c) : Closes t 0 := by
  induction t with
  | nil => exact closes_nil
  | cons c rest ih =>
      obtain ⟨hc, hrest⟩ := List.forall_mem_cons.1 h
      obtain ⟨hquoting, hweight⟩ := hc.step
      have hone : Closes [c] 0 :=
        ⟨hquoting, by rw [unclosedFrom, hweight]; rfl, by rw [lowFrom, hweight, hquoting]; rfl,
          by rw [peakFrom, hweight, hquoting]; rfl⟩
      exact hone.append (ih hrest)

/-- Brackets around a text raise its peak by one. -/
theorem Closes.bracketed {b : Nat} (h : Closes t b) (opening closing : Char)
    (hopening : opening ∈ ['(', '[']) (hclosing : closing ∈ [')', ']']) :
    Closes (opening :: (t ++ [closing])) (b + 1) := by
  have hfirst : Quoting.outside.step opening = .outside ∧ weightAt .outside opening = 1 := by
    simp only [List.mem_cons, List.not_mem_nil, or_false] at hopening
    rcases hopening with rfl | rfl <;> exact ⟨rfl, rfl⟩
  have hlast : Quoting.outside.step closing = .outside ∧ weightAt .outside closing = -1 := by
    simp only [List.mem_cons, List.not_mem_nil, or_false] at hclosing
    rcases hclosing with rfl | rfl <;> exact ⟨rfl, rfl⟩
  constructor
  · rw [Quoting.after_cons, hfirst.1, Quoting.after_append, h.quoting]
    exact hlast.1
  · rw [unclosedFrom, hfirst.1, hfirst.2, unclosedFrom_append, h.unclosed, h.quoting, unclosedFrom,
      hlast.2]
    rfl
  · rw [lowFrom, hfirst.1, hfirst.2, lowFrom_append, h.unclosed, h.quoting, h.low, lowFrom,
      hlast.2]
    rfl
  · rw [peakFrom, hfirst.1, hfirst.2, peakFrom_append, h.unclosed, h.quoting, h.peak, peakFrom,
      hlast.2, hlast.1, peakFrom]
    omega

/-- The characters stand between the quotes of one quoted text. -/
inductive Enclosed (quote : Quote) : List Char → Prop where
  | nil : Enclosed quote []
  | plain {c : Char} {rest : List Char} (hquote : c ≠ quote.char) (hslash : c ≠ '\\')
      (h : Enclosed quote rest) : Enclosed quote (c :: rest)
  | escape {c : Char} {rest : List Char} (h : Enclosed quote rest) :
      Enclosed quote ('\\' :: c :: rest)

/-- Quoted brackets do not count. -/
theorem Enclosed.closed {quote : Quote} (h : Enclosed quote t) :
    (Quoting.inside quote).after t = .inside quote ∧ unclosedFrom (.inside quote) t = 0 ∧
      lowFrom (.inside quote) t = 0 ∧ peakFrom (.inside quote) t = 0 := by
  have hinside : ∀ c, weightAt (.inside quote) c = 0 := fun _ => if_neg nofun
  have hescaped : ∀ c, weightAt (.escaped quote) c = 0 := fun _ => if_neg nofun
  induction h with
  | nil => exact ⟨rfl, rfl, rfl, rfl⟩
  | @plain c rest hquote hslash h ih =>
      have hstep : (Quoting.inside quote).step c = .inside quote := by
        unfold Quoting.step
        dsimp only
        rw [if_neg hquote, if_neg hslash]
      rw [Quoting.after_cons, unclosedFrom, lowFrom, peakFrom, hstep, hinside, ih.2.1, ih.2.2.1,
        ih.2.2.2]
      exact ⟨ih.1, rfl, rfl, rfl⟩
  | @escape c rest h ih =>
      have hstep : (Quoting.inside quote).step '\\' = .escaped quote := by
        cases quote <;> rfl
      have hback : (Quoting.escaped quote).step c = .inside quote := rfl
      simp only [Quoting.after_cons, unclosedFrom, lowFrom, peakFrom, hstep, hback,
        hinside, hescaped, ih]
      exact ⟨trivial, rfl, rfl, rfl⟩

theorem Enclosed.closes {quote : Quote} (h : Enclosed quote t) :
    Closes (quote.char :: (t ++ [quote.char])) 0 := by
  obtain ⟨hquoting, hunclosed, hlow, hpeak⟩ := h.closed
  have hfirst : Quoting.outside.step quote.char = .inside quote ∧
      weightAt .outside quote.char = 0 := by
    cases quote <;> exact ⟨rfl, rfl⟩
  have hlast : (Quoting.inside quote).step quote.char = .outside := if_pos rfl
  have hnone : weightAt (.inside quote) quote.char = 0 := if_neg nofun
  constructor
  · rw [Quoting.after_cons, hfirst.1, Quoting.after_append, hquoting]
    exact hlast
  · rw [unclosedFrom, hfirst.1, hfirst.2, unclosedFrom_append, hunclosed, hquoting, unclosedFrom,
      hnone]
    rfl
  · rw [lowFrom, hfirst.1, hfirst.2, lowFrom_append, hunclosed, hquoting, hlow, lowFrom, hnone]
    rfl
  · rw [peakFrom, hfirst.1, hfirst.2, peakFrom_append, hunclosed, hquoting, hpeak, peakFrom, hnone,
      hlast]
    rfl

/-! ## The limit -/

/-- The nesting behind a text. -/
def nestingAfter (nesting : Nesting) (s : List Char) : Nesting := s.foldl Nesting.step nesting

theorem nestingAfter_cons (nesting : Nesting) (c : Char) (s : List Char) :
    nestingAfter nesting (c :: s) = nestingAfter (nesting.step c) s := rfl

theorem nestingAfter_append (nesting : Nesting) (s t : List Char) :
    nestingAfter nesting (s ++ t) = nestingAfter (nestingAfter nesting s) t := List.foldl_append

theorem exceeds_eq_false_iff (nesting : Nesting) :
    nesting.exceeds = false ↔ nesting.brackets ≤ maxNesting ∧
      nesting.conditionals ≤ maxNesting ∧ nesting.leading ≤ maxNesting := by
  unfold Nesting.exceeds
  simp only [Bool.or_eq_false_iff, decide_eq_false_iff_not, Nat.not_lt, and_assoc]

theorem tooDeep_eq_false_iff {nesting : Nesting} (hstart : nesting.exceeds = false) :
    tooDeep nesting s = false ↔ ∀ p, p <+: s → (nestingAfter nesting p).exceeds = false := by
  induction s generalizing nesting with
  | nil =>
      refine iff_of_true rfl ?_
      intro p hp
      rw [List.prefix_nil.1 hp]
      exact hstart
  | cons c rest ih =>
      rw [tooDeep, Bool.or_eq_false_iff]
      constructor
      · rintro ⟨hstep, hrest⟩ p hp
        rcases List.prefix_cons_iff.1 hp with rfl | ⟨t, rfl, ht⟩
        · exact hstart
        · exact (ih hstep).1 hrest t ht
      · intro h
        have hstep := h [c] ((List.prefix_cons_inj c).2 List.nil_prefix)
        exact ⟨hstep, (ih hstep).2 fun p hp => h (c :: p) ((List.prefix_cons_inj c).2 hp)⟩

theorem conditionals_nestingAfter (nesting : Nesting) (s : List Char) :
    (nestingAfter nesting s).conditionals = nesting.conditionals + s.count '?' := by
  induction s generalizing nesting with
  | nil => rfl
  | cons c rest ih =>
      rw [nestingAfter_cons, ih, List.count_cons]
      unfold Nesting.step
      dsimp only
      by_cases hc : c = '?'
      · rw [if_pos hc, hc, beq_self_eq_true, if_pos rfl, Nat.add_right_comm, Nat.add_assoc]
      · rw [if_neg hc, beq_eq_false_iff_ne.2 hc, if_neg Bool.false_ne_true, Nat.add_zero]

theorem brackets_step (nesting : Nesting) (c : Char) :
    ((nesting.step c).brackets : Int) = max 0 (nesting.brackets + weight c) := by
  unfold Nesting.step weight
  dsimp only
  split
  · omega
  · split <;> omega

/-- While no quoted text holds a closing bracket, the count of brackets is no less than the number
of open ones. -/
theorem unclosedFrom_le_brackets (nesting : Nesting)
    (h : ∀ p c, p ++ [c] <+: s → q.after p ≠ .outside → c ∉ [')', ']']) :
    unclosedFrom q s + nesting.brackets ≤ (nestingAfter nesting s).brackets := by
  induction s generalizing q nesting with
  | nil => exact Int.le_of_eq (Int.zero_add _)
  | cons c rest ih =>
      have hrest := ih (q := q.step c) (nesting.step c) fun p d hp hq =>
        h (c :: p) d ((List.prefix_cons_inj c).2 hp) hq
      have hfirst : weightAt q c ≤ weight c := by
        unfold weightAt
        split
        · exact Int.le_refl _
        · next hq =>
          have hc := h [] c ((List.prefix_cons_inj c).2 List.nil_prefix) hq
          simp only [List.mem_cons, List.not_mem_nil, or_false] at hc
          unfold weight
          rw [if_neg hc]
          split <;> decide
      have hstep := brackets_step nesting c
      rw [unclosedFrom, nestingAfter_cons]
      omega

/-- The characters that stand outside of quoted texts. -/
def bareFrom (q : Quoting) : List Char → List Char
  | [] => []
  | c :: rest => if q = .outside then c :: bareFrom (q.step c) rest else bareFrom (q.step c) rest

/-- The text with its quoted texts cut down to their opening quotes. -/
def bare (s : List Char) : List Char := bareFrom .outside s

theorem bareFrom_sublist (q : Quoting) (s : List Char) : (bareFrom q s).Sublist s := by
  induction s generalizing q with
  | nil => exact List.Sublist.slnil
  | cons c rest ih =>
      unfold bareFrom
      split
      · exact (ih _).cons_cons c
      · exact (ih _).cons c

theorem exists_of_prefix_bareFrom {p : List Char} (h : p <+: bareFrom q s) :
    ∃ t, t <+: s ∧ bareFrom q t = p := by
  induction s generalizing q p with
  | nil => exact ⟨[], List.nil_prefix, (List.prefix_nil.1 h).symm⟩
  | cons c rest ih =>
      unfold bareFrom at h
      split at h
      · next hshown =>
        rcases List.prefix_cons_iff.1 h with rfl | ⟨t, rfl, ht⟩
        · exact ⟨[], List.nil_prefix, rfl⟩
        · obtain ⟨u, hu, heq⟩ := ih ht
          exact ⟨c :: u, (List.prefix_cons_inj c).2 hu, by rw [bareFrom, if_pos hshown, heq]⟩
      · next hhidden =>
        obtain ⟨u, hu, heq⟩ := ih h
        exact ⟨c :: u, (List.prefix_cons_inj c).2 hu, by rw [bareFrom, if_neg hhidden, heq]⟩

theorem prefix_bareFrom (q : Quoting) (h : t <+: s) : bareFrom q t <+: bareFrom q s := by
  obtain ⟨u, rfl⟩ := h
  induction t generalizing q with
  | nil => exact List.nil_prefix
  | cons c rest ih =>
      rw [List.cons_append, bareFrom, bareFrom]
      split
      · exact (List.prefix_cons_inj c).2 (ih _)
      · exact ih _

/-- In the bare text the count of brackets is the number of open ones, if there are never more
brackets closed than open. -/
theorem brackets_bareFrom (nesting : Nesting) (hlow : 0 ≤ nesting.brackets + lowFrom q s) :
    ((nestingAfter nesting (bareFrom q s)).brackets : Int) =
      nesting.brackets + unclosedFrom q s := by
  induction s generalizing q nesting with
  | nil => exact (Int.add_zero _).symm
  | cons c rest ih =>
      rw [lowFrom] at hlow
      have hneg := lowFrom_nonpos (q.step c) rest
      rw [bareFrom, unclosedFrom]
      unfold weightAt at hlow ⊢
      split
      · next hq =>
        rw [if_pos hq] at hlow
        have hstep := brackets_step nesting c
        rw [nestingAfter_cons, ih _ (by omega), hstep]
        omega
      · next hq =>
        rw [if_neg hq] at hlow
        rw [ih _ (by omega)]
        omega

theorem leading_step_congr {nesting other : Nesting} (h : nesting.leading = other.leading)
    (c : Char) : (nesting.step c).leading = (other.step c).leading := by
  unfold Nesting.step
  dsimp only
  rw [h]

theorem leading_step_quote (nesting : Nesting) (quote : Quote) :
    (nesting.step quote.char).leading = 0 := by
  cases quote <;> rfl

/-- A text becomes quoted, and ends to be so, at a quote. -/
theorem Quoting.step_cases (q : Quoting) (c : Char) :
    (q = .outside ↔ q.step c = .outside) ∨ ∃ quote : Quote, c = quote.char := by
  cases q with
  | outside =>
      unfold step
      dsimp only
      split
      · exact .inr ⟨.double, ‹_›⟩
      · split
        · exact .inr ⟨.single, ‹_›⟩
        · exact .inl Iff.rfl
  | inside quote =>
      unfold step
      dsimp only
      split
      · exact .inr ⟨quote, ‹_›⟩
      · split <;> exact .inl (iff_of_false nofun nofun)
  | escaped quote => exact .inl (iff_of_false nofun nofun)

/-- Quoted texts make no run of leading operators longer. -/
theorem leading_bareFrom {nesting : Nesting} (other : Nesting)
    (h : nesting.leading = if q = .outside then other.leading else 0) :
    (nestingAfter nesting (bareFrom q s)).leading =
      if q.after s = .outside then (nestingAfter other s).leading else 0 := by
  induction s generalizing q nesting other with
  | nil => exact h
  | cons c rest ih =>
      rw [bareFrom, Quoting.after_cons, nestingAfter_cons]
      by_cases hq : q = .outside
      · rw [if_pos hq] at h ⊢
        rw [nestingAfter_cons]
        refine ih _ ?_
        rw [leading_step_congr h c]
        rcases q.step_cases c with hsame | ⟨quote, rfl⟩
        · rw [if_pos (hsame.1 hq)]
        · rw [leading_step_quote, ite_self]
      · rw [if_neg hq] at h ⊢
        refine ih _ ?_
        rcases q.step_cases c with hsame | ⟨quote, rfl⟩
        · rw [if_neg (fun hout => hq (hsame.2 hout)), h]
        · rw [leading_step_quote, ite_self, h]

/-- What the limit says of an accepted text of which no part closes more brackets than it opens:
nothing exceeds the limit in the bare text if and only if never more brackets are open. -/
theorem tooDeep_bare_iff (hshallow : tooDeep {} s = false) (hlow : lowFrom .outside s = 0) :
    tooDeep {} (bare s) = false ↔ peakFrom .outside s ≤ maxNesting := by
  rw [tooDeep_eq_false_iff rfl] at hshallow ⊢
  have hbrackets : ∀ t, t <+: s →
      ((nestingAfter {} (bareFrom .outside t)).brackets : Int) = unclosedFrom .outside t := by
    intro t ht
    have hpart : lowFrom .outside t = 0 := by
      have hneg := lowFrom_nonpos .outside t
      obtain ⟨u, rfl⟩ := ht
      rw [lowFrom_append] at hlow
      omega
    have hcount := brackets_bareFrom (q := .outside) (s := t) {} (by rw [hpart]; decide)
    rw [hcount]
    exact Int.zero_add _
  constructor
  · intro hbare
    obtain ⟨t, ht, heq⟩ := exists_unclosedFrom_eq .outside s
    have hwithin := (exceeds_eq_false_iff _).1 (hbare _ (prefix_bareFrom .outside ht))
    rw [← heq, ← hbrackets t ht]
    exact Int.ofNat_le.2 hwithin.1
  · intro hpeak p hp
    obtain ⟨t, ht, rfl⟩ := exists_of_prefix_bareFrom hp
    have hwithin := (exceeds_eq_false_iff _).1 (hshallow t ht)
    refine (exceeds_eq_false_iff _).2 ⟨?_, ?_, ?_⟩
    · have hle := unclosedFrom_le_peak .outside ht
      have hcount := hbrackets t ht
      omega
    · have hless := (bareFrom_sublist .outside t).count_le '?'
      rw [conditionals_nestingAfter] at hwithin ⊢
      exact Nat.le_trans (Nat.add_le_add_left hless _) hwithin.2.1
    · rw [leading_bareFrom {} rfl]
      split
      · exact hwithin.2.2
      · exact Nat.zero_le _

/-- Without closing brackets in quoted texts never more brackets are open than the limit says. -/
theorem peak_le_of_shallow (hshallow : tooDeep {} s = false)
    (h : ∀ p c, p ++ [c] <+: s → Quoting.outside.after p ≠ .outside → c ∉ [')', ']']) :
    peakFrom .outside s ≤ maxNesting := by
  obtain ⟨t, ht, heq⟩ := exists_unclosedFrom_eq .outside s
  have hle := unclosedFrom_le_brackets (q := .outside) {} fun p c hp => h p c (hp.trans ht)
  have hwithin := (exceeds_eq_false_iff _).1 ((tooDeep_eq_false_iff rfl).1 hshallow t ht)
  have hzero : (({} : Nesting).brackets : Int) = 0 := rfl
  omega

end PanelBus.Expr.Grammar
