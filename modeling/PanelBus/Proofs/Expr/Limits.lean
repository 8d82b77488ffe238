import PanelBus.Proofs.Expr.Nesting
import PanelBus.Proofs.Expr.RoundTrip
/-!
# Limits on nesting

An accepted source has only so many question marks and leading operators in a row.  How deep its
brackets nest bounds the depth of its tree, and how deep the grammar calls itself while it reads the
source.
-/

namespace PanelBus.Expr.Grammar

variable {α β ε : Type} {s t w rest : List Char} {nested other : Rule Expr} {e : Expr} {k j : Int}

/-! ## Recursion of the grammar -/

/-- Behind no part of the text more brackets are open and more question marks were met than that,
taken together. -/
def Within (k : Int) (s : List Char) : Prop :=
  ∀ p, p <+: s → unclosed p + p.count '?' ≤ k

theorem Within.nonneg (h : Within k s) : 0 ≤ k := h [] List.nil_prefix

/-- What is read is taken off the bound. -/
theorem Within.drop (h : Within k (t ++ s)) (hquoting : Quoting.outside.after t = .outside)
    (hload : j ≤ unclosed t + t.count '?') : Within (k - j) s := by
  intro p hp
  have hwhole := h (t ++ p) ((List.prefix_append_right_inj t).2 hp)
  unfold unclosed at *
  rw [unclosedFrom_append, hquoting, List.count_append] at hwhole
  omega

theorem Within.closes {b : Nat} (h : Within k (t ++ s)) (ht : Closes t b) : Within k s := by
  have hunclosed : unclosed t = 0 := ht.unclosed
  have hrest := h.drop (j := 0) ht.quoting (by omega)
  rwa [Int.sub_zero] at hrest

theorem Within.blank (h : Within k (w ++ s)) (hw : Blank w) : Within k s :=
  h.closes (closes_blank hw)

/-- Behind an opening bracket or a question mark there is one less to go. -/
theorem Within.mark {c : Char} (h : Within (k + 1) (c :: s)) (hc : c ∈ ['(', '[', '?']) :
    Within k s := by
  have hrest : Within (k + 1 - 1) s := by
    simp only [List.mem_cons, List.not_mem_nil, or_false] at hc
    rcases hc with rfl | rfl | rfl <;> exact Within.drop (t := [_]) h rfl (by decide)
  rwa [Int.add_sub_cancel] at hrest

/-- Behind a closing bracket there is one more to go. -/
theorem Within.unmark {c : Char} (h : Within k (c :: s)) (hc : c ∈ [')', ']']) :
    Within (k + 1) s := by
  have hrest : Within (k - -1) s := by
    simp only [List.mem_cons, List.not_mem_nil, or_false] at hc
    rcases hc with rfl | rfl <;> exact Within.drop (t := [_]) h rfl (by decide)
  rwa [Int.sub_neg] at hrest

/-- The rules read the same from texts within the bound. -/
def Agree (k : Int) (first second : Rule α) : Prop := ∀ s, Within k s → first s = second s

theorem agree_refl (rule : Rule α) : Agree k rule rule := fun _ _ => rfl

theorem Agree.either {first first' second second' : Rule α} (h : Agree k first first')
    (hsecond : Agree k second second') : Agree k (either first second) (either first' second') := by
  intro s hs
  unfold Grammar.either
  rw [h s hs, hsecond s hs]

theorem Agree.spaced {first second : Rule α} (h : Agree k first second) :
    Agree k (spaced first) (spaced second) := by
  intro s hs
  obtain ⟨w, hw, hsplit⟩ := blank_skipSpaces s
  rw [hsplit] at hs
  unfold Grammar.spaced
  rw [h _ (hs.blank hw)]

theorem bind_congr_ok {x : Except ε α} {f g : α → Except ε β} (h : ∀ a, x = .ok a → f a = g a) :
    x >>= f = x >>= g := by
  cases x with
  | error error => rfl
  | ok a => exact h a rfl

theorem Within.symbol {word : String} {u : Unit} (h : Within k s)
    (hplain : ∀ c ∈ word.toList, Plain c) (hread : symbol word s = .ok (u, rest)) :
    Within k rest := by
  obtain ⟨w, w', hw, hw', rfl⟩ := exists_of_symbol hread
  exact ((h.blank hw).closes (closes_plain hplain)).blank hw'

theorem Within.opening {word : String} {c : Char} {u : Unit} (h : Within (k + 1) s)
    (hword : word.toList = [c]) (hc : c ∈ ['(', '[', '?'])
    (hread : Grammar.symbol word s = .ok (u, rest)) : Within k rest := by
  obtain ⟨w, w', hw, hw', rfl⟩ := exists_of_symbol hread
  have hrest := h.blank hw
  rw [hword] at hrest
  exact Within.blank (hrest.mark hc) hw'

theorem Within.read {rule : Rule Expr} {r : Nat} (h : Within k s) (hlays : Lays r rule)
    (hread : rule s = .ok (e, rest)) : Within k rest := by
  obtain ⟨t, form, rfl, ht, _, _⟩ := hlays hread
  exact h.closes ht.closes

section Rules

variable (hlays : Lays 3 nested) (h : Agree k nested other)

include hlays h

theorem agree_moreItems (rounds : Nat) (hs : Within k s) :
    moreItems nested rounds s = moreItems other rounds s := by
  induction rounds generalizing s with
  | zero => rfl
  | succ rounds ih =>
      rw [moreItems, moreItems]
      cases hcomma : symbol "," s with
      | error stop => rfl
      | ok result =>
          obtain ⟨_, before⟩ := result
          have hbefore := hs.symbol (forall_plain rfl) hcomma
          dsimp only
          rw [← h before hbefore]
          cases hitem : nested before with
          | error stop => rfl
          | ok result =>
              obtain ⟨item, behind⟩ := result
              dsimp only
              rw [ih (hbefore.read hlays hitem)]

theorem agree_items (hs : Within k s) : items nested s = items other s := by
  unfold items
  rw [← h s hs]
  cases hitem : nested s with
  | error stop => rfl
  | ok result =>
      obtain ⟨item, behind⟩ := result
      dsimp only
      rw [agree_moreItems hlays h _ (hs.read hlays hitem)]

theorem agree_listLiteral : Agree (k + 1) (listLiteral nested) (listLiteral other) := by
  intro s hs
  refine bind_congr_ok fun ⟨_, before⟩ hopen => ?_
  rw [eq_append_of_token hopen] at hs
  have hbefore : Within k before := hs.mark (by decide)
  dsimp only
  rw [agree_items hlays h hbefore]

omit hlays in
theorem agree_parenthesised : Agree (k + 1) (parenthesised nested) (parenthesised other) := by
  intro s hs
  refine bind_congr_ok fun ⟨_, before⟩ hopen => ?_
  rw [eq_append_of_token hopen] at hs
  have hbefore : Within k before := hs.mark (by decide)
  dsimp only
  rw [h before hbefore]

theorem agree_arguments : Agree (k + 1) (arguments nested) (arguments other) := by
  intro s hs
  refine bind_congr_ok fun ⟨_, before⟩ hopen => ?_
  have hbefore := hs.opening rfl (by decide) hopen
  dsimp only
  rw [agree_items hlays h hbefore]

theorem agree_named : Agree (k + 1) (named nested) (named other) := by
  intro s hs
  refine bind_congr_ok fun ⟨word, after⟩ hname => ?_
  obtain ⟨hword, rfl⟩ := exists_of_name hname
  dsimp only
  rw [agree_arguments hlays h after (hs.closes (closes_name hword))]

theorem agree_primary : Agree (k + 1) (primary nested) (primary other) :=
  .spaced <| (agree_refl _).either <| (agree_refl _).either <| (agree_refl _).either <|
    (agree_listLiteral hlays h).either <|
      (agree_parenthesised h).either (agree_named hlays h)

omit hlays in
theorem agree_indexSuffix (target : Expr) :
    Agree (k + 1) (indexSuffix nested target) (indexSuffix other target) := by
  intro s hs
  refine bind_congr_ok fun ⟨_, before⟩ hopen => ?_
  have hbefore := hs.opening rfl (by decide) hopen
  dsimp only
  rw [h before hbefore]

omit h in
/-- A suffix is read within the bound. -/
theorem within_suffix {target longer : Expr} (hs : Within k s)
    (hread : either (indexSuffix nested target) (memberSuffix target) s = .ok (longer, rest)) :
    Within k rest := by
  rcases cases_of_either hread with hread | hread
  · obtain ⟨⟨_, before⟩, hopen, hread⟩ := exists_of_bind hread
    obtain ⟨⟨position, after⟩, hposition, hread⟩ := exists_of_bind hread
    obtain ⟨⟨_, behind⟩, hclose, hlast⟩ := exists_of_bind hread
    obtain ⟨_, rfl⟩ := Prod.mk.inj (Except.ok.inj hlast)
    rw [← Int.sub_add_cancel k 1] at hs ⊢
    have hafter := (hs.opening rfl (by decide) hopen).read hlays hposition
    obtain ⟨w, w', hw, hw', rfl⟩ := exists_of_symbol hclose
    exact Within.blank ((hafter.blank hw).unmark (by decide)) hw'
  · obtain ⟨⟨_, before⟩, hopen, hread⟩ := exists_of_bind hread
    obtain ⟨⟨field, after⟩, hname, hlast⟩ := exists_of_bind hread
    obtain ⟨_, rfl⟩ := Prod.mk.inj (Except.ok.inj hlast)
    have hbefore := hs.symbol (forall_plain rfl) hopen
    obtain ⟨hfield, rfl⟩ := exists_of_name hname
    exact hbefore.closes (closes_name hfield)

theorem agree_suffixes (rounds : Nat) (target : Expr) (hs : Within (k + 1) s) :
    suffixes nested rounds target s = suffixes other rounds target s := by
  induction rounds generalizing s target with
  | zero => rfl
  | succ rounds ih =>
      rw [suffixes, suffixes, ← (agree_indexSuffix h target).either (agree_refl _) s hs]
      cases hsuffix : either (indexSuffix nested target) (memberSuffix target) s with
      | error stop => rfl
      | ok result => exact ih result.1 (within_suffix hlays hs hsuffix)

theorem agree_suffixed : Agree (k + 1) (suffixed nested) (suffixed other) := by
  intro s hs
  unfold suffixed
  rw [← agree_primary hlays h s hs]
  refine bind_congr_ok fun ⟨target, after⟩ hprimary => ?_
  exact congrArg Except.ok
    (agree_suffixes hlays h _ target (hs.read (lays_primary hlays) hprimary))

end Rules

theorem agree_applied (op : UnaryOp) {operand operand' : Rule Expr} (h : Agree k operand operand') :
    Agree k (applied op operand) (applied op operand') := by
  intro s hs
  refine bind_congr_ok fun ⟨_, before⟩ hsymbol => ?_
  have hbefore := hs.symbol (forall_plain (by cases op <;> rfl)) hsymbol
  dsimp only
  rw [h before hbefore]

theorem agree_unary (hlays : Lays 3 nested) (h : Agree k nested other) :
    Agree (k + 1) (unary nested) (unary other) := by
  have hfrom : ∀ rounds, Agree (k + 1) (unaryFrom nested rounds) (unaryFrom other rounds) := by
    intro rounds
    induction rounds with
    | zero => exact agree_suffixed hlays h
    | succ rounds ih =>
        exact (agree_applied .not ih).either <| (agree_applied .neg ih).either <|
          (agree_applied .bitNot ih).either (agree_suffixed hlays h)
  exact fun s hs => hfrom s.length s hs

theorem agree_operations {operand operand' : Rule Expr} (hlays : Lays 2 operand)
    (h : Agree k operand operand') {operator : Rule BinaryOp} (hmem : operator ∈ levels)
    (rounds : Nat) (lhs : Expr) :
    Agree k (operations operand operator rounds lhs) (operations operand' operator rounds lhs) := by
  induction rounds generalizing lhs with
  | zero => exact agree_refl _
  | succ rounds ih =>
      intro s hs
      rw [operations, operations]
      cases hoperator : operator s with
      | error stop => rfl
      | ok result =>
          obtain ⟨op, before⟩ := result
          have hbefore : Within k before := by
            obtain ⟨w, w', hw, hw', rfl⟩ := exists_of_operator hmem hoperator
            exact ((hs.blank hw).closes (closes_binaryOp op)).blank hw'
          dsimp only
          rw [← h before hbefore]
          refine bind_congr_ok fun result hoperand => ?_
          obtain ⟨rhs, after⟩ := result
          exact ih _ after (hbefore.read hlays hoperand)

theorem agree_binaryFrom {operand operand' : Rule Expr} (hlays : Lays 2 operand)
    (h : Agree k operand operand') {operators : List (Rule BinaryOp)}
    (hlevels : ∀ operator ∈ operators, operator ∈ levels) :
    Agree k (binaryFrom operand operators) (binaryFrom operand' operators) := by
  induction operators with
  | nil => exact h
  | cons operator tighter ih =>
      obtain ⟨hmem, htighter⟩ := List.forall_mem_cons.1 hlevels
      have hlhs := lays_binaryFrom hlays htighter
      intro s hs
      rw [binaryFrom, binaryFrom]
      dsimp only
      rw [← ih htighter s hs]
      refine bind_congr_ok fun result hread => ?_
      obtain ⟨lhs, after⟩ := result
      exact agree_operations hlhs (ih htighter) hmem _ lhs after (hs.read hlhs hread)

theorem agree_branches (hlays : Lays 3 nested) (h : Agree k nested other) :
    Agree (k + 1) (branches nested) (branches other) := by
  intro s hs
  refine bind_congr_ok fun ⟨_, before⟩ hquestion => ?_
  have hbefore := hs.opening rfl (by decide) hquestion
  dsimp only
  rw [← h before hbefore]
  refine bind_congr_ok fun ⟨yes, middle⟩ hyes => ?_
  refine bind_congr_ok fun ⟨_, behind⟩ hcolon => ?_
  have hbehind := (hbefore.read hlays hyes).symbol (forall_plain rfl) hcolon
  dsimp only
  rw [h behind hbehind]

theorem agree_conditional (hlays : Lays 3 nested) (h : Agree k nested other) :
    Agree (k + 1) (conditional nested) (conditional other) := by
  have hoperand : Lays 2 (unary nested) := (lays_unary hlays).mono (by decide)
  intro s hs
  unfold conditional
  rw [← agree_binaryFrom hoperand (agree_unary hlays h) (fun _ hmem => hmem) s hs]
  refine bind_congr_ok fun ⟨test, after⟩ htest => ?_
  have hafter := hs.read (lays_binaryFrom hoperand fun _ hmem => hmem) htest
  dsimp only
  rw [agree_branches hlays h after hafter]

/-- An expression, where `deep` reads what nests at that depth. -/
def expressionOver (deep : Rule Expr) : Nat → Rule Expr
  | 0 => deep
  | depth + 1 => conditional (expressionOver deep depth)

theorem expression_add (m depth : Nat) :
    expression (m + depth) = expressionOver (expression m) depth := by
  induction depth with
  | zero => rfl
  | succ depth ih => rw [← Nat.add_assoc, expression, ih, expressionOver]

theorem expressionOver_add (deep : Rule Expr) (m depth : Nat) :
    expressionOver deep (m + depth) = expressionOver (expressionOver deep m) depth := by
  induction depth with
  | zero => rfl
  | succ depth ih => rw [← Nat.add_assoc, expressionOver, ih, expressionOver]

/-- Nothing nests deeper than the bound says. -/
theorem agree_expressionOver (m depth : Nat) (deep : Rule Expr) :
    Agree (depth - 1 : Int) (expressionOver (expression m) depth) (expressionOver deep depth) := by
  induction depth with
  | zero =>
      intro s hs
      exact absurd hs.nonneg (by decide)
  | succ depth ih =>
      have hlays : Lays 3 (expressionOver (expression m) depth) := by
        rw [← expression_add]
        exact lays_expression _
      have hall := agree_conditional hlays ih
      rw [Int.sub_add_cancel] at hall
      rwa [Int.natCast_succ, Int.add_sub_cancel]

theorem unclosedFrom_add_count_le (q : Quoting) (s : List Char) :
    unclosedFrom q s + s.count '?' ≤ s.length := by
  induction s generalizing q with
  | nil => exact Int.le_refl 0
  | cons c rest ih =>
      have hrest := ih (q.step c)
      have hone : weightAt q c + (if c == '?' then 1 else 0 : Nat) ≤ 1 := by
        unfold weightAt weight
        by_cases hc : c = '?'
        · subst hc
          split <;> decide
        · rw [beq_eq_false_iff_ne.2 hc]
          split
          · split
            · decide
            · split <;> decide
          · decide
      rw [unclosedFrom, List.count_cons, List.length_cons]
      omega

theorem within_of_length (h : (s.length : Int) ≤ k) : Within k s := by
  intro p hp
  have hcount := unclosedFrom_add_count_le .outside p
  have hshort := hp.length_le
  unfold unclosed
  omega

/-- Reading an expression goes no deeper than the brackets and question marks of the text. -/
theorem expressionOver_eq {b n : Nat} (hs : Within b s) (hn : s.length < n) (deep : Rule Expr) :
    expressionOver deep (b + 1) s = expression n s := by
  rcases Nat.le_total (b + 1) n with hle | hle
  · obtain ⟨m, rfl⟩ := Nat.exists_eq_add_of_le' hle
    rw [expression_add]
    refine (agree_expressionOver m (b + 1) deep s ?_).symm
    rwa [Int.natCast_succ, Int.add_sub_cancel]
  · obtain ⟨m, hm⟩ := Nat.exists_eq_add_of_le' hle
    rw [hm, expressionOver_add]
    have hall := agree_expressionOver 0 n (expressionOver deep m) s (within_of_length (by omega))
    rw [← expression_add, Nat.zero_add] at hall
    exact hall.symm

/-! ## Recursion of leading operators -/

/-- A suffixed expression with operators before it, where `deep` reads what is behind that many
operators. -/
def signedOver (nested deep : Rule Expr) : Nat → Rule Expr
  | 0 => deep
  | rounds + 1 =>
    either (applied .not (signedOver nested deep rounds))
      (either (applied .neg (signedOver nested deep rounds))
        (either (applied .bitNot (signedOver nested deep rounds)) (suffixed nested)))

theorem unaryFrom_eq (nested : Rule Expr) (rounds : Nat) :
    unaryFrom nested rounds = signedOver nested (suffixed nested) rounds := by
  induction rounds with
  | zero => rfl
  | succ rounds ih => rw [unaryFrom, signedOver, ih]

theorem signedOver_add (nested deep : Rule Expr) (m rounds : Nat) :
    signedOver nested deep (m + rounds) = signedOver nested (signedOver nested deep m) rounds := by
  induction rounds with
  | zero => rfl
  | succ rounds ih => rw [← Nat.add_assoc, signedOver, ih, signedOver]

theorem applied_congr (op : UnaryOp) {operand operand' : Rule Expr}
    (h : ∀ w w' after, Blank w → Blank w' → s = w ++ (op.symbol.toList ++ (w' ++ after)) →
      operand after = operand' after) : applied op operand s = applied op operand' s := by
  refine bind_congr_ok fun ⟨_, after⟩ hsymbol => ?_
  obtain ⟨w, w', hw, hw', hs⟩ := exists_of_symbol hsymbol
  dsimp only
  rw [h w w' after hw hw' hs]

theorem signedOver_congr {deep deep' : Rule Expr} {rounds rounds' : Nat}
    (h : ∀ (op : UnaryOp) w w' after, Blank w → Blank w' →
      s = w ++ (op.symbol.toList ++ (w' ++ after)) →
      signedOver nested deep rounds after = signedOver nested deep' rounds' after) :
    signedOver nested deep (rounds + 1) s = signedOver nested deep' (rounds' + 1) s := by
  rw [signedOver, signedOver]
  unfold either
  rw [applied_congr .not (h .not), applied_congr .neg (h .neg), applied_congr .bitNot (h .bitNot)]

/-- Behind more leading operators than the limit allows there is nothing to read. -/
theorem signedOver_of_led {limit : Nat} {nesting : Nesting} (hled : Led limit nesting s)
    (deep deep' : Rule Expr) {rounds : Nat} (hrounds : limit < nesting.leading + rounds) :
    signedOver nested deep rounds s = signedOver nested deep' rounds s := by
  induction rounds generalizing s nesting with
  | zero => exact absurd hled.le (Nat.not_le.2 hrounds)
  | succ rounds ih =>
      refine signedOver_congr fun op w w' after hw hw' hs => ?_
      rw [hs] at hled
      refine ih hled.append.2.append.2.append.2 ?_
      rw [leading_blank hw', leading_unaryOp, leading_blank hw]
      omega

theorem signedOver_nil (nested deep : Rule Expr) (rounds : Nat) :
    signedOver nested deep (rounds + 1) [] = suffixed nested [] := by
  have hfails : ∀ (op : UnaryOp) (operand : Rule Expr), Fails (applied op operand) [] := by
    intro op operand
    cases op <;> exact fails_bind (fails_symbol rfl nofun)
  rw [signedOver, either_of_fails (hfails _ _), either_of_fails (hfails _ _),
    either_of_fails (hfails _ _)]

/-- A text has no more leading operators than characters. -/
theorem signedOver_of_length (nested : Rule Expr) (m n : Nat) (hm : s.length ≤ m)
    (hn : s.length ≤ n) :
    signedOver nested (suffixed nested) m s = signedOver nested (suffixed nested) n s := by
  induction m generalizing s n with
  | zero =>
      obtain rfl := List.eq_nil_of_length_eq_zero (Nat.le_zero.1 hm)
      cases n with
      | zero => rfl
      | succ n => exact (signedOver_nil nested _ n).symm
  | succ m ih =>
      cases n with
      | zero =>
          obtain rfl := List.eq_nil_of_length_eq_zero (Nat.le_zero.1 hn)
          exact signedOver_nil nested _ m
      | succ n =>
          refine signedOver_congr fun op w w' after _ _ hs => ?_
          have hlength : after.length + 1 ≤ s.length := by
            have hsymbol : op.symbol.toList.length = 1 := by cases op <;> rfl
            rw [hs]
            simp only [List.length_append]
            omega
          exact ih n (by omega) (by omega)

/-- Reading leading operators goes no deeper than the limit says. -/
theorem signedOver_eq {limit : Nat} {nesting : Nesting} (hled : Led limit nesting s)
    (nested deep : Rule Expr) : signedOver nested deep (limit + 1) s = unary nested s := by
  have hlimit : limit < nesting.leading + (limit + 1) := by omega
  calc signedOver nested deep (limit + 1) s
    _ = signedOver nested (signedOver nested (suffixed nested) s.length) (limit + 1) s :=
      signedOver_of_led hled deep _ hlimit
    _ = signedOver nested (suffixed nested) (s.length + (limit + 1)) s :=
      congrFun (signedOver_add nested _ _ _).symm s
    _ = signedOver nested (suffixed nested) s.length s :=
      signedOver_of_length nested _ _ (Nat.le_add_right _ _) (Nat.le_refl _)
    _ = unary nested s := by rw [unary, unaryFrom_eq]

end PanelBus.Expr.Grammar

namespace PanelBus.Expr

open Grammar

theorem closes_before {before : List Char}
    (h : ∀ c ∈ before, isSpace c = true ∨ isNamePart c = true) : Closes before 0 := by
  refine closes_plain fun c hc => ?_
  rcases h c hc with hspace | hpart
  · exact plain_of rfl hspace
  · exact plain_of rfl hpart

theorem closes_behind {behind : List Char} (h : ∀ c ∈ behind, isSpace c = true ∨ c = ';') :
    Closes behind 0 := by
  refine closes_plain fun c hc => ?_
  rcases h c hc with hspace | rfl
  · exact plain_of rfl hspace
  · decide

section Shallow

variable {s : List Char}

theorem led_of_shallow (h : tooDeep {} s = false) : Led maxNesting {} s := by
  intro p hp
  have hwithin := (tooDeep_eq_false_iff rfl).1 h p hp
  exact ((exceeds_eq_false_iff _).1 hwithin).2.2

theorem count_le_of_shallow (h : tooDeep {} s = false) : s.count '?' ≤ maxNesting := by
  have hwithin := (tooDeep_eq_false_iff rfl).1 h s List.prefix_rfl
  have hcount := ((exceeds_eq_false_iff _).1 hwithin).2.1
  rw [conditionals_nestingAfter] at hcount
  omega

/-- Reading an expression goes no deeper than its open brackets and question marks. -/
theorem expressionOver_skipReturn {b : Nat} (hunclosed : ∀ p, p <+: s → unclosed p ≤ b)
    (hquestions : s.count '?' ≤ maxNesting) (deep : Rule Expr) :
    expressionOver deep (b + maxNesting + 1) (skipReturn s) =
      expression (s.length + 1) (skipReturn s) := by
  have hload : Within (b + maxNesting : Nat) s := by
    intro p hp
    have hcount := hp.sublist.count_le '?'
    have hopen := hunclosed p hp
    omega
  obtain ⟨word, hword, hsplit⟩ := exists_of_skipReturn s
  have hlength : (skipReturn s).length < s.length + 1 := by
    have hsum := congrArg List.length hsplit
    rw [List.length_append] at hsum
    omega
  rw [hsplit] at hload
  exact expressionOver_eq (hload.closes (closes_before hword)) hlength deep

end Shallow

/-! ## Accepted sources -/

/-- The source is a layout of the form, but for the word that may stand before it and the marks that
may stand behind it. -/
def Written (source : String) (form : Form) : Prop :=
  ∃ before t behind, source.toList = before ++ (t ++ behind) ∧
    (∀ c ∈ before, isSpace c = true ∨ isNamePart c = true) ∧
    (∀ c ∈ behind, isSpace c = true ∨ c = ';') ∧ Layout t (.one form)

/-- What the limit says of a source and of the form that it is the text of. -/
structure Limited (source : String) (form : Form) : Prop where
  /-- No more brackets are open at once, outside of quoted texts, than nest in the form. -/
  open_le : ∀ p, p <+: source.toList → 0 ≤ unclosed p ∧ unclosed p ≤ form.brackets
  open_eq : ∃ p, p <+: source.toList ∧ unclosed p = form.brackets
  /-- They are within the limit if and only if it holds for the bare text. -/
  brackets_iff : form.brackets ≤ maxNesting ↔ tooDeep {} (bare source.toList) = false
  brackets_le : (∀ p c, p ++ [c] <+: source.toList → Quoting.outside.after p ≠ .outside →
    c ∉ [')', ']']) → form.brackets ≤ maxNesting
  signs_le : form.signs ≤ maxNesting
  conditionals_le : form.conditionals ≤ maxNesting
  /-- The depth of the form depends on the brackets alone. -/
  depth_le : form.depth ≤ (maxNesting + 1) * (form.brackets + maxNesting) + maxNesting
  /-- So does that of the grammar that reads it. -/
  expression_eq : ∀ deep,
    expressionOver deep (form.brackets + maxNesting + 1) (skipReturn source.toList) =
      expression (source.toList.length + 1) (skipReturn source.toList)
  unary_eq : ∀ nested deep r, r <:+ source.toList →
    signedOver nested deep (maxNesting + 1) r = Grammar.unary nested r

section Written

variable {source : String} {form : Form}

theorem Written.closes (h : Written source form) : Closes source.toList form.brackets := by
  obtain ⟨before, t, behind, hs, hbefore, hbehind, ht⟩ := h
  have hall := (closes_before hbefore).append (ht.closes.append (closes_behind hbehind))
  rw [← hs] at hall
  simpa [Form.brackets] using hall

theorem Written.signs_le {limit : Nat} (h : Written source form)
    (hled : Led limit {} source.toList) : form.signs ≤ limit := by
  obtain ⟨before, t, behind, hs, -, -, ht⟩ := h
  rw [hs] at hled
  exact (ht.signs_le hled.append.2.append.1).1

theorem Written.conditionals_le (h : Written source form) :
    form.conditionals ≤ source.toList.count '?' := by
  obtain ⟨before, t, behind, hs, -, -, ht⟩ := h
  calc form.conditionals
    _ ≤ t.count '?' := ht.conditionals_le
    _ ≤ source.toList.count '?' := by
      rw [hs, List.count_append, List.count_append]
      omega

theorem Written.depth_le (h : Written source form) (hsigns : form.signs ≤ maxNesting) :
    form.depth ≤ (maxNesting + 1) * (form.brackets + form.conditionals) + maxNesting := by
  obtain ⟨before, t, behind, -, -, -, ht⟩ := h
  exact (ht.shallow hsigns).2

theorem Written.limited (h : Written source form) (hshallow : tooDeep {} source.toList = false) :
    Limited source form := by
  have hcloses := h.closes
  have hled := led_of_shallow hshallow
  have hquestions := count_le_of_shallow hshallow
  have hopen : ∀ p, p <+: source.toList → 0 ≤ unclosed p ∧ unclosed p ≤ form.brackets := by
    intro p hp
    have hlow := low_le_unclosedFrom .outside hp
    have hhigh := unclosedFrom_le_peak .outside hp
    rw [hcloses.low] at hlow
    rw [hcloses.peak] at hhigh
    exact ⟨hlow, hhigh⟩
  have hsigns : form.signs ≤ maxNesting := h.signs_le hled
  have hconditionals : form.conditionals ≤ maxNesting :=
    Nat.le_trans h.conditionals_le hquestions
  refine ⟨hopen, ?_, ?_, ?_, hsigns, hconditionals, ?_,
    expressionOver_skipReturn (fun p hp => (hopen p hp).2) hquestions, ?_⟩
  · rw [← hcloses.peak]
    exact exists_unclosedFrom_eq .outside _
  · rw [tooDeep_bare_iff hshallow hcloses.low, hcloses.peak, Int.ofNat_le]
  · intro hquoted
    have hle := peak_le_of_shallow hshallow hquoted
    rwa [hcloses.peak, Int.ofNat_le] at hle
  · calc form.depth
      _ ≤ (maxNesting + 1) * (form.brackets + form.conditionals) + maxNesting :=
        h.depth_le hsigns
      _ ≤ (maxNesting + 1) * (form.brackets + maxNesting) + maxNesting :=
        Nat.add_le_add_right (Nat.mul_le_mul_left _ (Nat.add_le_add_left hconditionals _)) _
  · rintro nested deep r ⟨p, hp⟩
    rw [← hp] at hled
    exact signedOver_eq hled.append.2 nested deep

end Written

/-- An accepted source is the text of a form with the tree that was read.  Its conditionals and its
leading operators are within the limit, and its brackets are unless quoted texts hold closing
ones. -/
theorem nesting_of_parse {source : String} {e : Expr} (h : parse source = .ok e) :
    ∃ form : Form, Written source form ∧ form.expr = e ∧ Limited source form := by
  obtain ⟨_, hshallow, hprogram⟩ := parse_eq_ok_iff.1 h
  obtain ⟨before, t, behind, form, hs, hbefore, hbehind, ht, hexpr⟩ := layout_of_program hprogram
  have hwritten : Written source form := ⟨before, t, behind, hs, hbefore, hbehind, ht⟩
  exact ⟨form, hwritten, hexpr, hwritten.limited hshallow⟩

theorem nesting_of_parse_list : parse "[(1)]" = .ok (.list [.lit (.nat 1)]) ∧
    ∃ form : Form, form.expr = .list [.lit (.nat 1)] ∧ form.brackets = 2 := by
  have hread : parse "[(1)]" = .ok (.list [.lit (.nat 1)]) := rfl
  obtain ⟨form, -, hexpr, hlimited⟩ := nesting_of_parse hread
  obtain ⟨p, hp, hpeak⟩ := hlimited.open_eq
  refine ⟨hread, form, hexpr, ?_⟩
  have hlow : unclosed ['[', '('] ≤ form.brackets := (hlimited.open_le _ (by decide)).2
  have hhigh : unclosed p ≤ 2 := unclosedFrom_le_peak .outside hp
  rw [hpeak] at hhigh
  exact Nat.le_antisymm (Int.ofNat_le.1 hhigh) (Int.ofNat_le.1 hlow)

/-- A list of a closing bracket in quotes and of such a list, that many deep. -/
def tower : Nat → Expr
  | 0 => .list []
  | n + 1 => .list [.lit (.str ")"), tower n]

theorem writable_tower (n : Nat) : Writable (tower n) := by
  induction n with
  | zero => exact .list nofun
  | succ n ih =>
      refine .list fun item hitem => ?_
      simp only [List.mem_cons, List.not_mem_nil, or_false] at hitem
      rcases hitem with rfl | rfl
      · exact .str _
      · exact ih

/-- The limit takes quoted brackets for closing ones: a source with more than 32 open brackets is
accepted. -/
theorem brackets_exceed_limit : ∃ source e p, parse source = .ok e ∧ p <+: source.toList ∧
    (maxNesting : Int) < unclosed p := by
  have hchars : (tower 32).print.toList = (tower 32).write := String.toList_ofList
  refine ⟨(tower 32).print, tower 32, (tower 32).write.take 193, parse_eq_ok_iff.2 ⟨?_, ?_, ?_⟩,
    ?_, ?_⟩
  · decide +kernel
  · rw [hchars]
    decide +kernel
  · rw [hchars]
    exact program_write (writable_tower 32)
  · rw [hchars]
    exact List.take_prefix _ _
  · decide +kernel

end PanelBus.Expr
