import PanelBus.Proofs.Expr.Rules
/-!
# Places in an expression

A place asks for a strength: 0 takes any expression, 1 to 10 what the binary operators of that level
join, 11 what may stand behind an operator, 12 what a suffix may follow.  Reading at a place begins
with what the next stronger place takes and goes on from there, with an operator, with a suffix or
with the branches of a conditional.
-/

namespace PanelBus.Expr.Grammar

variable {nested : Rule Expr} {s t rest : List Char} {e : Expr} {p q : Nat}

/-- The rule for a place. -/
def place (nested : Rule Expr) : Nat → Rule Expr
  | 0 => conditional nested
  | p + 1 => if p ≤ 10 then binaryFrom (unary nested) (levels.drop p) else suffixed nested

/-- How reading goes on at a place behind an expression. -/
def goOn (nested : Rule Expr) : Nat → Nat → Expr → Rule Expr
  | 0, _, e, s =>
    match branches nested s with
    | .ok ((yes, no), rest) => .ok (.cond e yes no, rest)
    | .error _ => .ok (e, s)
  | p + 1, rounds, e, s =>
    match levels.drop p with
    | operator :: tighter =>
      operations (binaryFrom (unary nested) tighter) operator rounds e s
    | [] => if p = 11 then .ok (suffixes nested rounds e s) else .ok (e, s)

theorem place_succ (hp : p ≤ 10) (nested : Rule Expr) :
    place nested (p + 1) = binaryFrom (unary nested) (levels.drop p) := if_pos hp

theorem exists_drop_levels (hp : p < 10) :
    ∃ operator, levels.drop p = operator :: levels.drop (p + 1) :=
  ⟨levels.get ⟨p, hp⟩, List.drop_eq_getElem_cons _⟩

theorem goOn_operator {operator : Rule BinaryOp}
    (hdrop : levels.drop p = operator :: levels.drop (p + 1)) (hp : p < 10) (rounds : Nat) :
    goOn nested (p + 1) rounds e s = operations (place nested (p + 2)) operator rounds e s := by
  rw [place_succ (Nat.succ_le_of_lt hp), goOn, hdrop]

theorem place_eq (hp : p ≤ 10) (nested : Rule Expr) (s : List Char) :
    place nested p s = place nested (p + 1) s >>= fun (e, rest) =>
      goOn nested p rest.length e rest := by
  cases p with
  | zero =>
      change conditional nested s = (binaryFrom (unary nested) levels s).bind _
      unfold conditional
      cases binaryFrom (unary nested) levels s with
      | error stop => rfl
      | ok result =>
          simp only [bind, Except.bind, goOn]
          rfl
  | succ p =>
      obtain ⟨operator, hdrop⟩ := exists_drop_levels (p := p) (by omega)
      rw [place_succ (by omega), hdrop, binaryFrom, ← place_succ (by omega)]
      simp only [goOn_operator hdrop (by omega)]

theorem operator_congr {operator : Rule BinaryOp} (h : operator ∈ levels)
    (hsame : skipSpaces s = skipSpaces t) : operator s = operator t := by
  simp only [levels, List.mem_cons, List.not_mem_nil, or_false] at h
  rcases h with rfl | rfl | rfl | rfl | rfl | rfl | rfl | rfl | rfl | rfl <;>
    exact spaced_congr hsame

/-! ## What follows an expression -/

/-- What may follow an expression in a place, so that reading does not go on there. -/
structure Ends (p : Nat) (rest : List Char) : Prop extends Apart rest where
  stops : ∀ q, p ≤ q → ∀ nested rounds e after, skipSpaces after = skipSpaces rest →
    goOn nested q rounds e after = .ok (e, after)

theorem Ends.mono (h : Ends p rest) (hle : p ≤ q) : Ends q rest where
  toApart := h.toApart
  stops := fun r hr => h.stops r (Nat.le_trans hle hr)

theorem fails_of_all {α : Type} {rules : List (Rule α)}
    (h : (rules.all fun rule => !(rule s).toBool) = true) : ∀ rule ∈ rules, Fails rule s := by
  intro rule hrule
  apply fails_of_toBool
  simpa using List.all_eq_true.1 h rule hrule

theorem operations_of_fails {operand : Rule Expr} {operator : Rule BinaryOp}
    (h : Fails operator s) (rounds : Nat) :
    operations operand operator rounds e s = .ok (e, s) := by
  obtain ⟨stop, hstop⟩ := h
  cases rounds with
  | zero => rfl
  | succ rounds => rw [operations, hstop]

theorem suffixes_of_head (hindex : (skipSpaces s).head? ≠ some '[')
    (hmember : (skipSpaces s).head? ≠ some '.') (rounds : Nat) :
    suffixes nested rounds e s = (e, s) := by
  have hindex' : Fails (indexSuffix nested e) s := fails_bind (fails_symbol rfl hindex)
  have hmember' : Fails (memberSuffix e) s := fails_bind (fails_symbol rfl hmember)
  obtain ⟨stop, hstop⟩ := hindex'.either hmember'
  cases rounds with
  | zero => rfl
  | succ rounds => rw [suffixes, hstop]

/-- Reading does not go on where there is no operator, no suffix and no question mark. -/
theorem ends_of_head (hword : ∀ c ∈ rest.head?, isNamePart c = false)
    (hhead : ∀ c ∈ (skipSpaces rest).head?, c ∉ ['(', '[', '.'] ∧ (p = 0 → c ≠ '?'))
    (hoperators : ∀ operator ∈ levels.drop (p - 1), Fails operator (skipSpaces rest)) :
    Ends p rest := by
  have hne : ∀ c ∈ ['(', '[', '.'], (skipSpaces rest).head? ≠ some c :=
    fun c hc hsome => (hhead c hsome).1 hc
  refine ⟨⟨hword, hne '(' (by decide), ?_⟩, ?_⟩
  · rintro more rfl
    exact absurd rfl (hne '.' (by decide))
  · intro q hle nested rounds e after hafter
    rw [← hafter] at hne hhead
    cases q with
    | zero =>
        have hquestion : (skipSpaces after).head? ≠ some '?' :=
          fun hsome => (hhead '?' hsome).2 (Nat.le_zero.1 hle) rfl
        obtain ⟨stop, hstop⟩ : Fails (branches nested) after :=
          fails_bind (fails_symbol rfl hquestion)
        rw [goOn, hstop]
    | succ q =>
        rw [goOn]
        cases hdrop : levels.drop q with
        | nil =>
            dsimp only
            split
            · rw [suffixes_of_head (hne '[' (by decide)) (hne '.' (by decide))]
            · rfl
        | cons operator tighter =>
            have hmem : operator ∈ levels.drop q := by
              rw [hdrop]
              exact List.mem_cons_self
            have hsub : (levels.drop q).Sublist (levels.drop (p - 1)) :=
              List.drop_sublist_drop_left _ (by omega)
            have hfails : Fails operator after := by
              unfold Fails
              rw [operator_congr (List.mem_of_mem_drop hmem)
                (hafter.trans (skipSpaces_skipSpaces rest).symm)]
              exact hoperators operator (hsub.mem hmem)
            exact operations_of_fails hfails rounds

theorem ends_nil : Ends 0 [] :=
  ends_of_head (fun _ => nofun) (fun _ => nofun) (fails_of_all rfl)

/-- Behind an expression comes what closes a bracket, or what parts expressions from each other. -/
theorem ends_mark {c : Char} (hc : c ∈ [')', ']', ',']) (rest : List Char) :
    Ends 0 (c :: rest) := by
  simp only [List.mem_cons, List.not_mem_nil, or_false] at hc
  rcases hc with rfl | rfl | rfl
  all_goals
    refine ends_of_head ?_ ?_ (fails_of_all rfl)
    · rintro c ⟨⟩
      rfl
    · rintro c ⟨⟩
      decide

theorem ends_colon (rest : List Char) : Ends 0 (' ' :: ':' :: ' ' :: rest) := by
  refine ends_of_head ?_ ?_ (fails_of_all rfl)
  · rintro c ⟨⟩
    rfl
  · rintro c ⟨⟩
    decide

theorem ends_question (rest : List Char) : Ends 1 (' ' :: '?' :: ' ' :: rest) := by
  refine ends_of_head ?_ ?_ (fails_of_all rfl)
  · rintro c ⟨⟩
    rfl
  · rintro c ⟨⟩
    decide

/-- An operator ends what is at a place for which it is too weak. -/
theorem ends_operator (op : BinaryOp) (rest : List Char) :
    Ends (op.strength + 1) (' ' :: (op.symbol.toList ++ ' ' :: rest)) := by
  refine ends_of_head ?_ ?_ ?_
  · rintro c ⟨⟩
    rfl
  · cases op <;> (rintro c ⟨⟩; decide)
  · cases op <;> exact fails_of_all rfl

theorem ends_suffix (hrest : Apart rest) : Ends 13 rest where
  toApart := hrest
  stops := by
    intro q hle nested rounds e after _
    obtain ⟨q, rfl⟩ := Nat.exists_eq_add_of_le hle
    have hnone : levels.drop (12 + q) = [] := by
      apply List.drop_eq_nil_of_le
      change 10 ≤ 12 + q
      omega
    rw [show 13 + q = 12 + q + 1 by omega, goOn, hnone]
    exact if_neg (by omega)

theorem ends_bracket (rest : List Char) : Ends 13 ('[' :: rest) := by
  refine ends_suffix ⟨?_, nofun, nofun⟩
  rintro c ⟨⟩
  rfl

theorem ends_point {field : String} (hfield : IsName field) (rest : List Char) :
    Ends 13 ('.' :: (field.toList ++ rest)) := by
  refine ends_suffix ⟨?_, nofun, ?_⟩
  · rintro c ⟨⟩
    rfl
  · rintro more hmore c hc
    obtain ⟨d, cs, hchars, hstart, _⟩ := hfield
    obtain rfl := (List.cons.inj hmore).2
    rw [hchars] at hc
    obtain rfl := Option.some.inj hc
    exact (plain_of_isNameStart hstart).2.1

/-! ## Reading at a place -/

/-- The rule reads the expression and nothing of the rest, except that it may pass over blanks. -/
def Gives (rule : Rule Expr) (s : List Char) (e : Expr) (rest : List Char) : Prop :=
  ∃ after, skipSpaces after = skipSpaces rest ∧ rule s = .ok (e, after)

/-- The text is read as the expression, and reading may go on behind it. -/
def Reads (nested : Rule Expr) (p : Nat) (t : List Char) (e : Expr) : Prop :=
  ∀ rest, Ends (p + 1) rest → ∃ rounds after, (skipSpaces rest).length ≤ rounds ∧
    skipSpaces after = skipSpaces rest ∧
    place nested p (t ++ rest) = goOn nested p rounds e after

theorem Reads.gives (h : Reads nested p t e) (hrest : Ends p rest) :
    Gives (place nested p) (t ++ rest) e rest := by
  obtain ⟨rounds, after, _, hafter, hread⟩ := h rest (hrest.mono (Nat.le_succ p))
  refine ⟨after, hafter, ?_⟩
  rw [hread]
  exact hrest.stops p (Nat.le_refl p) nested rounds e after hafter

theorem Reads.next (h : Reads nested (p + 1) t e) (hp : p ≤ 10) : Reads nested p t e := by
  intro rest hrest
  obtain ⟨after, hafter, hread⟩ := h.gives hrest
  refine ⟨after.length, after, ?_, hafter, ?_⟩
  · rw [← hafter]
    exact length_skipSpaces_le after
  · rw [place_eq hp, hread]
    rfl

theorem Reads.loosen (h : Reads nested p t e) (hp : p ≤ 11) (hle : q ≤ p) : Reads nested q t e := by
  induction p with
  | zero =>
      obtain rfl := Nat.le_zero.1 hle
      exact h
  | succ p ih =>
      rcases Nat.lt_or_eq_of_le hle with hless | rfl
      · exact ih (h.next (by omega)) (by omega) (Nat.le_of_lt_succ hless)
      · exact h

/-- The text begins with no blank. -/
def Solid (t : List Char) : Prop := ∃ c ∈ t.head?, isSpace c = false

theorem Solid.skipSpaces_append (h : Solid t) (rest : List Char) :
    skipSpaces (t ++ rest) = t ++ rest := by
  obtain ⟨c, hc, hspace⟩ := h
  obtain ⟨more, rfl⟩ := List.head?_eq_some_iff.1 hc
  exact skipSpaces_cons hspace _

theorem Solid.length_pos (h : Solid t) : 0 < t.length := by
  obtain ⟨c, hc, _⟩ := h
  obtain ⟨more, rfl⟩ := List.head?_eq_some_iff.1 hc
  exact Nat.succ_pos _

/-- The text stands for the expression where any expression may stand. -/
structure Inner (nested : Rule Expr) (t : List Char) (e : Expr) : Prop where
  solid : Solid t
  gives : ∀ rest, Ends 0 rest → Gives nested (t ++ rest) e rest

/-! ## Primary expressions and suffixes -/

theorem reads_of_primary
    (h : ∀ rest, Apart rest → primary nested (t ++ rest) = .ok (e, skipSpaces rest)) :
    Reads nested 12 t e := by
  intro rest hrest
  refine ⟨(skipSpaces rest).length, skipSpaces rest, Nat.le_refl _, skipSpaces_skipSpaces rest, ?_⟩
  change suffixed nested (t ++ rest) = _
  unfold suffixed
  rw [h rest hrest.toApart]
  rfl

theorem reads_paren (h : Inner nested t e) : Reads nested 12 ('(' :: (t ++ [')'])) e := by
  apply reads_of_primary
  intro rest _
  obtain ⟨after, hafter, hnested⟩ := h.gives (')' :: rest) (ends_mark (by decide) rest)
  have hclose : symbol ")" after = .ok ((), skipSpaces rest) := symbol_eq hafter rfl
  rw [List.cons_append, List.append_assoc]
  exact (primary_paren hnested hclose).trans (by rw [skipSpaces_skipSpaces])

/-- One more suffix is read. -/
theorem Reads.suffix (h : Reads nested 12 t e) {text : List Char} {longer : Expr}
    (hsolid : Solid text) (hends : ∀ rest, Ends 13 (text ++ rest))
    (hsuffix : ∀ rest after, Ends 13 rest → skipSpaces after = text ++ rest →
      Gives (either (indexSuffix nested e) (memberSuffix e)) after longer rest) :
    Reads nested 12 (t ++ text) longer := by
  intro rest hrest
  obtain ⟨rounds, after, hle, hafter, hread⟩ := h (text ++ rest) (hends rest)
  rw [hsolid.skipSpaces_append] at hle hafter
  rw [List.length_append] at hle
  have hpos := hsolid.length_pos
  have hshort := length_skipSpaces_le rest
  obtain ⟨left, rfl⟩ := Nat.exists_eq_add_of_lt (show 0 < rounds by omega)
  obtain ⟨later, hlater, hone⟩ := hsuffix rest after hrest hafter
  refine ⟨left, later, by omega, hlater, ?_⟩
  have hmore : suffixes nested (0 + left + 1) e after = suffixes nested left longer later := by
    rw [suffixes, hone, Nat.zero_add]
  rw [List.append_assoc, hread]
  change Except.ok (suffixes nested (0 + left + 1) e after) = _
  rw [hmore]
  rfl

theorem reads_index {position : Expr} {inside : List Char} (h : Reads nested 12 t e)
    (hinside : Inner nested inside position) :
    Reads nested 12 (t ++ '[' :: (inside ++ [']'])) (.index e position) := by
  refine h.suffix ⟨'[', rfl, rfl⟩ (fun rest => ends_bracket _) ?_
  intro rest before _ hbefore
  rw [List.cons_append, List.append_assoc, List.singleton_append] at hbefore
  obtain ⟨after, hafter, hnested⟩ := hinside.gives (']' :: rest) (ends_mark (by decide) rest)
  have hopen : symbol "[" before = .ok ((), inside ++ ']' :: rest) :=
    symbol_eq hbefore (hinside.solid.skipSpaces_append _)
  have hclose : symbol "]" after = .ok ((), skipSpaces rest) := symbol_eq hafter rfl
  refine ⟨skipSpaces rest, skipSpaces_skipSpaces rest, either_of_ok ?_⟩
  unfold indexSuffix
  rw [hopen]
  simp only [bind, Except.bind, hnested, hclose]
  rfl

theorem reads_member {field : String} (h : Reads nested 12 t e)
    (hfield : IsName field) :
    Reads nested 12 (t ++ '.' :: field.toList) (.member e field) := by
  refine h.suffix ⟨'.', rfl, rfl⟩ (fun rest => ends_point hfield rest) ?_
  intro rest before hrest hbefore
  have hindex : Fails (indexSuffix nested e) before := by
    refine fails_bind (fails_symbol rfl ?_)
    rw [hbefore]
    exact nofun
  have hopen : symbol "." before = .ok ((), field.toList ++ rest) :=
    symbol_eq hbefore (skipSpaces_name hfield rest)
  refine ⟨rest, rfl, ?_⟩
  rw [either_of_fails hindex]
  unfold memberSuffix
  rw [hopen]
  simp only [bind, Except.bind, name_append hfield hrest.word]
  rfl

/-! ## Operators -/

/-- The text begins with no blank and no operator that stands before its operand. -/
def Unsigned (t : List Char) : Prop :=
  ∃ c ∈ t.head?, isSpace c = false ∧ c ∉ ['!', '-', '~']

theorem Unsigned.solid (h : Unsigned t) : Solid t := by
  obtain ⟨c, hc, hspace, _⟩ := h
  exact ⟨c, hc, hspace⟩

theorem unaryFrom_of_unsigned (h : Unsigned t) (rounds : Nat) (rest : List Char) :
    unaryFrom nested rounds (t ++ rest) = suffixed nested (t ++ rest) := by
  obtain ⟨c, hc, hspace, hplain⟩ := h
  obtain ⟨more, rfl⟩ := List.head?_eq_some_iff.1 hc
  have hfails : ∀ (op : UnaryOp) (operand : Rule Expr),
      Fails (applied op operand) (c :: (more ++ rest)) := by
    intro op operand
    refine fails_bind ?_
    cases op
    all_goals
      refine fails_symbol rfl ?_
      rw [skipSpaces_cons hspace]
      rintro ⟨⟩
      exact hplain (by decide)
  cases rounds with
  | zero => rfl
  | succ rounds =>
      rw [unaryFrom, List.cons_append, either_of_fails (hfails _ _), either_of_fails (hfails _ _),
        either_of_fails (hfails _ _)]

theorem Reads.unsigned (h : Reads nested 12 t e) (hhead : Unsigned t) : Reads nested 11 t e := by
  intro rest hrest
  obtain ⟨after, hafter, hread⟩ := h.gives hrest
  refine ⟨(skipSpaces rest).length, after, Nat.le_refl _, hafter, ?_⟩
  change unaryFrom nested (t ++ rest).length (t ++ rest) = .ok (e, after)
  rw [unaryFrom_of_unsigned hhead]
  exact hread

theorem Reads.lower (h : Reads nested p t e) (hp : p ≤ 12) (hhead : p = 12 → Unsigned t)
    (hle : q ≤ p) : Reads nested q t e := by
  rcases Nat.lt_or_eq_of_le hp with hless | rfl
  · exact h.loosen (by omega) hle
  · rcases Nat.lt_or_eq_of_le hle with hless | rfl
    · exact (h.unsigned (hhead rfl)).loosen (by decide) (by omega)
    · exact h

theorem Ends.unary (h : Ends 12 rest) : Ends 11 rest where
  toApart := h.toApart
  stops := by
    intro q hle nested rounds e after hafter
    rcases Nat.lt_or_eq_of_le hle with hless | rfl
    · exact h.stops q hless nested rounds e after hafter
    · rfl

theorem reads_unary (op : UnaryOp) (h : Reads nested 11 t e) (hsolid : Solid t) :
    Reads nested 11 (op.symbol.toList ++ t) (.unary op e) := by
  intro rest hrest
  obtain ⟨after, hafter, hread⟩ := h.gives hrest.unary
  refine ⟨(skipSpaces rest).length, after, Nat.le_refl _, hafter, ?_⟩
  change Grammar.unary nested (op.symbol.toList ++ t ++ rest) = .ok (.unary op e, after)
  have hoperand : unaryFrom nested (t ++ rest).length (t ++ rest) = .ok (e, after) := hread
  have hlength : (op.symbol.toList ++ (t ++ rest)).length = (t ++ rest).length + 1 := by
    cases op <;> rfl
  have hfirst : skipSpaces (op.symbol.toList ++ (t ++ rest)) = op.symbol.toList ++ (t ++ rest) := by
    cases op <;> rfl
  have hsymbol := symbol_eq hfirst (hsolid.skipSpaces_append rest)
  have happlied : applied op (unaryFrom nested (t ++ rest).length)
      (op.symbol.toList ++ (t ++ rest)) = .ok (.unary op e, after) := by
    unfold applied
    simp only [bind, Except.bind, hsymbol, hoperand]
    rfl
  rw [List.append_assoc, Grammar.unary, hlength, unaryFrom]
  cases op with
  | not => exact either_of_ok happlied
  | neg =>
      refine (either_of_fails ?_).trans (either_of_ok happlied)
      exact ⟨_, rfl⟩
  | bitNot =>
      refine (either_of_fails ?_).trans ((either_of_fails ?_).trans (either_of_ok happlied))
      · exact ⟨_, rfl⟩
      · exact ⟨_, rfl⟩

/-- The operators of its level find the operator. -/
theorem exists_operator (op : BinaryOp) : ∃ operator ∈ levels,
    (∀ nested rounds e s, goOn nested op.strength rounds e s =
      operations (place nested (op.strength + 1)) operator rounds e s) ∧
    ∀ s, operator (op.symbol.toList ++ ' ' :: s) = .ok (op, skipSpaces s) := by
  obtain ⟨operator, hdrop, hread⟩ : ∃ operator,
      levels.drop (op.strength - 1) = operator :: levels.drop op.strength ∧
        ∀ s, operator (op.symbol.toList ++ ' ' :: s) = .ok (op, skipSpaces s) := by
    cases op <;> exact ⟨_, rfl, fun _ => rfl⟩
  obtain ⟨hpos, hle⟩ := op.strength_range
  obtain ⟨k, hk⟩ := Nat.exists_eq_add_of_le hpos
  rw [hk, Nat.add_sub_cancel_left, Nat.add_comm] at hdrop
  refine ⟨operator, ?_, ?_, hread⟩
  · apply List.mem_of_mem_drop (i := k)
    rw [hdrop]
    exact List.mem_cons_self
  · intro nested rounds e s
    rw [hk, Nat.add_comm 1 k]
    exact goOn_operator hdrop (by omega) rounds

theorem skipSpaces_symbol (op : BinaryOp) (rest : List Char) :
    skipSpaces (op.symbol.toList ++ rest) = op.symbol.toList ++ rest := by
  cases op <;> rfl

theorem reads_binary (op : BinaryOp) {left right : List Char} {lhs rhs : Expr}
    (hleft : Reads nested op.strength left lhs) (hright : Reads nested (op.strength + 1) right rhs)
    (hsolid : Solid right) :
    Reads nested op.strength (left ++ ' ' :: (op.symbol.toList ++ ' ' :: right))
      (.binary op lhs rhs) := by
  intro rest hrest
  let tail := op.symbol.toList ++ ' ' :: (right ++ rest)
  obtain ⟨rounds, before, hle, hbefore, hread⟩ := hleft (' ' :: tail) (ends_operator op _)
  obtain ⟨after, hafter, hrhs⟩ := hright.gives hrest
  obtain ⟨operator, hmem, hgoOn, hoperator⟩ := exists_operator op
  have htail : skipSpaces (' ' :: tail) = tail := skipSpaces_symbol op _
  have hlength : rest.length + 1 ≤ tail.length := by
    change _ ≤ (op.symbol.toList ++ ' ' :: (right ++ rest)).length
    rw [List.length_append, List.length_cons, List.length_append]
    omega
  have hshort := length_skipSpaces_le rest
  rw [htail] at hle
  obtain ⟨fewer, rfl⟩ := Nat.exists_eq_add_of_lt (show 0 < rounds by omega)
  refine ⟨fewer, after, by omega, hafter, ?_⟩
  have hfound : operator before = .ok (op, right ++ rest) := by
    rw [operator_congr hmem (t := tail) (hbefore.trans (htail.trans (skipSpaces_symbol op _).symm)),
      hoperator, hsolid.skipSpaces_append]
  have hsplit : left ++ ' ' :: (op.symbol.toList ++ ' ' :: right) ++ rest =
      left ++ ' ' :: tail := by
    rw [List.append_assoc, List.cons_append, List.append_assoc, List.cons_append]
  rw [hsplit, hread, hgoOn, hgoOn, Nat.zero_add, operations, hfound]
  simp only [bind, Except.bind, hrhs]

/-! ## Conditionals -/

theorem gives_cond {test yes no : Expr} {textTest textYes textNo : List Char}
    (htest : Reads nested 1 textTest test) (hyes : Inner nested textYes yes)
    (hno : Inner nested textNo no) (hrest : Ends 0 rest) :
    Gives (conditional nested) (textTest ++ ' ' :: '?' :: ' ' :: (textYes ++ ' ' :: ':' :: ' ' ::
      (textNo ++ rest))) (.cond test yes no) rest := by
  obtain ⟨rounds, before, _, hbefore, hread⟩ := (htest.next (by decide)) _ (ends_question _)
  obtain ⟨middle, hmiddle, hyes'⟩ := hyes.gives _ (ends_colon (textNo ++ rest))
  obtain ⟨after, hafter, hno'⟩ := hno.gives rest hrest
  have hquestion : symbol "?" before =
      .ok ((), textYes ++ ' ' :: ':' :: ' ' :: (textNo ++ rest)) :=
    symbol_eq hbefore (hyes.solid.skipSpaces_append _)
  have hcolon : symbol ":" middle = .ok ((), textNo ++ rest) :=
    symbol_eq hmiddle (hno.solid.skipSpaces_append _)
  have hbranches : branches nested before = .ok ((yes, no), after) := by
    unfold branches
    simp only [bind, Except.bind, hquestion, hyes', hcolon, hno']
    rfl
  refine ⟨after, hafter, ?_⟩
  change place nested 0 _ = _
  rw [hread, goOn, hbranches]

end PanelBus.Expr.Grammar
