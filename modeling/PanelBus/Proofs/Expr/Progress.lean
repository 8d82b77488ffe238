import PanelBus.Proofs.Expr.Limits
import PanelBus.Proofs.Expr.Remainder
import PanelBus.Proofs.Expr.Size
/-!
# Progress of the grammar

Expressions, operands, operators, suffixes and arguments are at least one octet long, and a nested
expression begins behind what was read before it.  So the depth of nesting and the rounds of a loop
that the length of the text allows are never used up, and the place at which a source is refused is
the beginning of one of its characters.
-/

namespace PanelBus.Expr

theorem nodes_pos (e : Expr) : 0 < e.nodes := by
  cases e <;> rw [nodes] <;> omega

namespace Grammar

variable {α β : Type} {s rest : List Char} {nested operand : Rule Expr} {e : Expr}

/-! ## Progress -/

theorem Advances.bind {first : Rule α} {next : α × List Char → Except (List Char) (β × List Char)}
    (h : Advances first) (hnext : ∀ a, Leaves fun rest => next (a, rest)) :
    Advances fun s => first s >>= next := by
  intro s b rest hread
  obtain ⟨⟨a, after⟩, hfirst, hread⟩ := exists_of_bind hread
  exact Nat.lt_of_le_of_lt ((hnext a).of_ok hread).length_le (h hfirst)

theorem Pays.advances {rule : Rule Expr} (h : Pays rule) : Advances rule := by
  intro s e rest hread
  have hpaid := h hread
  have hpos := e.nodes_pos
  omega

theorem advances_sign (op : UnaryOp) : Advances (symbol op.symbol) :=
  advances_symbol (by cases op <;> decide)

theorem advances_suffix (h : Leaves nested) (target : Expr) :
    Advances (either (indexSuffix nested target) (memberSuffix target)) := by
  have hindex : Advances (indexSuffix nested target) :=
    (advances_symbol (by decide)).bind fun _ => h.bind fun position =>
      (leaves_symbol "]").bind fun _ => leaves_done (Expr.index target position)
  have hmember : Advances (memberSuffix target) :=
    (advances_symbol (by decide)).bind fun _ => leaves_name.bind fun field =>
      leaves_done (Expr.member target field)
  exact hindex.either hmember

theorem advances_arguments (h : Leaves nested) : Advances (arguments nested) :=
  (advances_symbol (by decide)).bind fun _ rest => leaves_closed h ")" id rest

/-- The rules for expressions, operands, operators, suffixes and arguments. -/
inductive Step : {α : Type} → Rule α → Prop where
  | expression (depth : Nat) : Step (expression depth)
  | operand (depth : Nat) {operators : List (Rule BinaryOp)} (h : operators <:+ levels) :
      Step (binaryFrom (unary (expression depth)) operators)
  | signed (depth rounds : Nat) : Step (unaryFrom (expression depth) rounds)
  | unary (depth : Nat) : Step (unary (expression depth))
  | suffixed (depth : Nat) : Step (suffixed (expression depth))
  | primary (depth : Nat) : Step (primary (expression depth))
  | operator {operator : Rule BinaryOp} (hmem : operator ∈ levels) : Step operator
  | sign (op : UnaryOp) : Step (symbol op.symbol)
  | suffix (depth : Nat) (target : Expr) :
      Step (either (indexSuffix (expression depth) target) (memberSuffix target))
  | arguments (depth : Nat) : Step (arguments (expression depth))

theorem Step.part {rule : Rule α} (h : Step rule) : Part rule := by
  cases h with
  | expression depth => exact .expression depth
  | operand depth h => exact .binaryFrom (.unary (.expression depth)) fun _ hmem => h.subset hmem
  | signed depth rounds => exact .unaryFrom (.expression depth) rounds
  | unary depth => exact .unary (.expression depth)
  | suffixed depth => exact .suffixed (.expression depth)
  | primary depth => exact .primary (.expression depth)
  | operator hmem => exact .operator hmem
  | sign op => exact .spaced (.token op.symbol)
  | suffix depth target =>
      exact .either (.indexSuffix (.expression depth) target) (.memberSuffix target)
  | arguments depth => exact .arguments (.expression depth)

theorem Step.advances {rule : Rule α} (h : Step rule) : Advances rule := by
  cases h with
  | expression depth => exact (pays_expression depth).advances
  | operand depth h =>
      have hoperand := pays_unary (pays_expression depth)
      exact (pays_binaryFrom hoperand fun _ hmem => h.subset hmem).advances
  | signed depth rounds => exact (pays_unaryFrom (pays_expression depth) rounds).advances
  | unary depth => exact (pays_unary (pays_expression depth)).advances
  | suffixed depth => exact (pays_suffixed (pays_expression depth)).advances
  | primary depth => exact (pays_primary (pays_expression depth)).advances
  | operator hmem => exact advances_operator hmem
  | sign op => exact advances_sign op
  | suffix depth target => exact advances_suffix (leaves_expression depth) target
  | arguments depth => exact advances_arguments (leaves_expression depth)

/-! ## Recursion -/

/-- Nothing nests deeper than the text is long. -/
theorem expressionOver_of_length {m n : Nat} (hm : s.length < m) (hn : s.length < n)
    (deep : Rule Expr) : expressionOver deep m s = expression n s := by
  obtain ⟨b, rfl⟩ := Nat.exists_eq_add_one_of_ne_zero (Nat.ne_zero_of_lt hm)
  exact expressionOver_eq (within_of_length (by omega)) hn deep

theorem program_over {depth : Nat} (h : s.length < depth) (deep : Rule Expr) :
    program s = (do
      let (e, rest) ← expressionOver deep depth (skipReturn s)
      match skipEnd rest with
      | [] => return e
      | rest => throw rest) := by
  have hskip := (skipReturn_suffix s).length_le
  rw [expressionOver_of_length (Nat.lt_of_le_of_lt hskip h) (Nat.lt_succ_of_le hskip)]
  rfl

/-- The depth need not fall on the way to nested expressions. -/
theorem expression_eq {depth : Nat} (h : s.length < depth) :
    expression depth s = conditional (expression depth) s := by
  obtain ⟨b, rfl⟩ := Nat.exists_eq_add_one_of_ne_zero (Nat.ne_zero_of_lt h)
  -- The two depths read nested expressions alike, for what nests is a mark shorter.
  have hdeep : Agree (b - 1 : Int) (expression b) (expression (b + 1)) := by
    have hover := agree_expressionOver 0 b (expression 1)
    rwa [← expression_add, ← expression_add, Nat.zero_add, Nat.add_comm] at hover
  have hall := agree_conditional (lays_expression b) hdeep
  rw [Int.sub_add_cancel] at hall
  exact hall s (within_of_length (by omega))

theorem signedOver_of_lt {rounds : Nat} (h : s.length < rounds) (nested deep : Rule Expr) :
    signedOver nested deep rounds s = signedOver nested (suffixed nested) rounds s := by
  induction rounds generalizing s with
  | zero => exact absurd h (Nat.not_lt_zero _)
  | succ rounds ih =>
      refine signedOver_congr fun op w w' after _ _ hs => ih ?_
      have hsymbol : 0 < op.symbol.toList.length := by cases op <;> decide
      rw [hs] at h
      simp only [List.length_append] at h
      omega

/-- No more operators stand before an operand than the text is long. -/
theorem signedOver_eq_unary {rounds : Nat} (h : s.length < rounds) (nested deep : Rule Expr) :
    signedOver nested deep rounds s = unary nested s := by
  rw [signedOver_of_lt h, unary, unaryFrom_eq]
  exact signedOver_of_length nested _ _ (Nat.le_of_lt h) (Nat.le_refl _)

theorem unaryFrom_of_length {rounds : Nat} (h : s.length ≤ rounds) (nested : Rule Expr) :
    unaryFrom nested (rounds + 1) s = unaryFrom nested rounds s := by
  rw [unaryFrom_eq, unaryFrom_eq]
  exact signedOver_of_length nested _ _ (Nat.le_succ_of_le h) h

section Loops

-- A round of a loop begins with a rule that advances, so the text of the next round is shorter.

variable {rounds : Nat}

theorem operations_of_length (hoperand : Leaves operand) {operator : Rule BinaryOp}
    (hoperator : Advances operator) (lhs : Expr) (h : s.length ≤ rounds) :
    operations operand operator (rounds + 1) lhs s = operations operand operator rounds lhs s := by
  induction rounds generalizing lhs s with
  | zero =>
      cases hread : operator s with
      | error stop => simp only [operations, hread]
      | ok result => exact absurd (hoperator hread) (by omega)
  | succ rounds ih =>
      rw [operations, operations]
      cases hread : operator s with
      | error stop => rfl
      | ok result =>
          obtain ⟨op, before⟩ := result
          have hbefore := hoperator hread
          refine bind_congr_ok fun result hrhs => ?_
          obtain ⟨rhs, after⟩ := result
          have hafter := (hoperand.of_ok hrhs).length_le
          exact ih _ (by omega)

theorem suffixes_of_length (hnested : Leaves nested) (target : Expr) (h : s.length ≤ rounds) :
    suffixes nested (rounds + 1) target s = suffixes nested rounds target s := by
  induction rounds generalizing target s with
  | zero =>
      cases hread : either (indexSuffix nested target) (memberSuffix target) s with
      | error stop => simp only [suffixes, hread]
      | ok result => exact absurd (advances_suffix hnested target hread) (by omega)
  | succ rounds ih =>
      rw [suffixes, suffixes]
      cases hread : either (indexSuffix nested target) (memberSuffix target) s with
      | error stop => rfl
      | ok result =>
          have hshorter := advances_suffix hnested target hread
          exact ih result.1 (by omega)

theorem moreItems_of_length (hnested : Leaves nested) (h : s.length ≤ rounds) :
    moreItems nested (rounds + 1) s = moreItems nested rounds s := by
  have hcomma : Advances (symbol ",") := advances_symbol (by decide)
  induction rounds generalizing s with
  | zero =>
      cases hread : symbol "," s with
      | error stop => simp only [moreItems, hread]
      | ok result => exact absurd (hcomma hread) (by omega)
  | succ rounds ih =>
      rw [moreItems, moreItems]
      cases hread : symbol "," s with
      | error stop => rfl
      | ok result =>
          obtain ⟨_, before⟩ := result
          dsimp only
          cases hitem : nested before with
          | error stop => rfl
          | ok result =>
              obtain ⟨item, behind⟩ := result
              have hbefore := hcomma hread
              have hbehind := (hnested.of_ok hitem).length_le
              dsimp only
              rw [ih (by omega)]

end Loops

/-- The length of the text bounds the depth and the rounds that it takes.  Bounds above it are not
used up: what the grammar calls itself for below them is not asked for, and its rules are as they
would be if the bounds did not fall. -/
structure Unbounded : Prop where
  expression_over {s : List Char} {m n : Nat} (hm : s.length < m) (hn : s.length < n)
      (deep : Rule Expr) :
    expressionOver deep m s = expression n s
  program_over {s : List Char} {depth : Nat} (h : s.length < depth) (deep : Rule Expr) :
    program s = do
      let (e, rest) ← expressionOver deep depth (skipReturn s)
      match skipEnd rest with
      | [] => return e
      | rest => throw rest
  expression_eq {s : List Char} {depth : Nat} (h : s.length < depth) :
    expression depth s = conditional (expression depth) s
  signed_over {s : List Char} {rounds : Nat} (h : s.length < rounds) (nested deep : Rule Expr) :
    signedOver nested deep rounds s = unary nested s
  signed_eq {s : List Char} {rounds : Nat} (h : s.length ≤ rounds) (nested : Rule Expr) :
    unaryFrom nested rounds s =
      either (applied .not (unaryFrom nested rounds))
        (either (applied .neg (unaryFrom nested rounds))
          (either (applied .bitNot (unaryFrom nested rounds)) (suffixed nested))) s
  operations_eq {operand : Rule Expr} (hoperand : Part operand) {operator : Rule BinaryOp}
      (hmem : operator ∈ levels) {s : List Char} {rounds : Nat} (h : s.length ≤ rounds)
      (lhs : Expr) :
    operations operand operator rounds lhs s =
      match operator s with
      | .error _ => .ok (lhs, s)
      | .ok (op, rest) => do
        let (rhs, rest) ← operand rest
        operations operand operator rounds (.binary op lhs rhs) rest
  suffixes_eq {nested : Rule Expr} (hnested : Part nested) {s : List Char} {rounds : Nat}
      (h : s.length ≤ rounds) (target : Expr) :
    suffixes nested rounds target s =
      match either (indexSuffix nested target) (memberSuffix target) s with
      | .error _ => (target, s)
      | .ok (e, rest) => suffixes nested rounds e rest
  moreItems_eq {nested : Rule Expr} (hnested : Part nested) {s : List Char} {rounds : Nat}
      (h : s.length ≤ rounds) :
    moreItems nested rounds s =
      match symbol "," s with
      | .error _ => ([], s)
      | .ok (_, rest) =>
        match nested rest with
        | .error _ => ([], s)
        | .ok (item, rest) =>
          let (items, rest) := moreItems nested rounds rest
          (item :: items, rest)

theorem unbounded : Unbounded where
  expression_over := expressionOver_of_length
  program_over := program_over
  expression_eq := expression_eq
  signed_over := signedOver_eq_unary
  signed_eq h nested := (unaryFrom_of_length h nested).symm
  operations_eq hoperand _ hmem _ _ h lhs :=
    (operations_of_length hoperand.leaves (advances_operator hmem) lhs h).symm
  suffixes_eq hnested _ _ h target := (suffixes_of_length hnested.leaves target h).symm
  moreItems_eq hnested _ _ h := (moreItems_of_length hnested.leaves h).symm

end Grammar

/-! ## Places in a source -/

theorem utf8Size_eq (s : List Char) : utf8Size s = (String.ofList s).utf8ByteSize := by
  have hfrom : ∀ n, s.foldl (fun n c => n + c.utf8Size) n = n + (String.ofList s).utf8ByteSize := by
    induction s with
    | nil => exact fun n => rfl
    | cons c rest ih =>
        intro n
        rw [List.foldl_cons, ih, String.ofList_cons, String.utf8ByteSize_append,
          String.utf8ByteSize_singleton, Nat.add_assoc]
  exact (hfrom 0).trans (Nat.zero_add _)

theorem utf8Size_append (s t : List Char) : utf8Size (s ++ t) = utf8Size s + utf8Size t := by
  rw [utf8Size_eq, utf8Size_eq, utf8Size_eq, String.ofList_append, String.utf8ByteSize_append]

section Places

variable {s rest : List Char}

/-- A shorter end of the text has fewer octets. -/
theorem utf8Size_lt (h : rest <:+ s) (hlength : rest.length < s.length) :
    utf8Size rest < utf8Size s := by
  obtain ⟨before, rfl⟩ := h
  have hoctets := length_le_utf8ByteSize before
  rw [List.length_append] at hlength
  rw [utf8Size_append, utf8Size_eq before]
  omega

/-- At that octet of the text one of its characters begins, or the text ends there, and those are
the characters from there on. -/
structure StartsAt (text : String) (position : Nat) (rest : List Char) : Prop where
  position_le : position ≤ text.utf8ByteSize
  boundary : (⟨position⟩ : String.Pos.Raw).IsValid text
  split : ∃ before, text = before ++ String.ofList rest ∧ before.utf8ByteSize = position

theorem startsAt_of_suffix (h : rest <:+ s) :
    StartsAt (String.ofList s) (utf8Size s - utf8Size rest) rest := by
  obtain ⟨before, rfl⟩ := h
  have hposition : utf8Size (before ++ rest) - utf8Size rest =
      (String.ofList before).utf8ByteSize := by
    rw [utf8Size_append, utf8Size_eq before, Nat.add_sub_cancel]
  rw [hposition, String.ofList_append]
  refine ⟨?_, ?_, String.ofList before, rfl, rfl⟩
  · rw [String.utf8ByteSize_append]
    exact Nat.le_add_right _ _
  · exact String.Pos.Raw.isValid_iff_exists_append.2 ⟨_, _, rfl, rfl⟩

end Places

/-- Reading ends by itself, for every text.  Whether a rule reads or fails, what it leaves begins
with a character of its text; expressions, operands, operators, suffixes and arguments are at least
one octet long.  A source that is not read is refused at one of its characters or its end, and the
failure shows the first sixteen characters from there on. -/
theorem parse_progresses (source : String) :
    Grammar.Unbounded ∧
    (∀ {α : Type} {rule : Grammar.Rule α}, Grammar.Part rule → ∀ s,
      StartsAt (String.ofList s) (utf8Size s - utf8Size (Grammar.remainder (rule s)))
        (Grammar.remainder (rule s))) ∧
    (∀ {α : Type} {rule : Grammar.Rule α}, Grammar.Step rule → ∀ {s a rest},
      rule s = .ok (a, rest) → utf8Size rest < utf8Size s) ∧
    ((∃ e, parse source = .ok e) ∨ (∃ excess, parse source = .error (.tooComplex excess)) ∨
      ∃ position rest, StartsAt source position rest ∧
        parse source = .error (.parse position (String.ofList (rest.take 16)))) := by
  refine ⟨Grammar.unbounded, fun hpart s => startsAt_of_suffix (hpart.leaves s),
    fun hstep _ _ _ hread => utf8Size_lt (hstep.part.leaves.of_ok hread) (hstep.advances hread), ?_⟩
  unfold parse
  dsimp only
  split
  · exact .inr (.inl ⟨_, rfl⟩)
  split
  · exact .inr (.inl ⟨_, rfl⟩)
  split
  · exact .inl ⟨_, rfl⟩
  · next stop hprogram =>
    have hstop := startsAt_of_suffix (Grammar.suffix_of_program hprogram)
    rw [utf8Size_eq source.toList, String.ofList_toList] at hstop
    exact .inr (.inr ⟨_, stop, hstop, rfl⟩)

/-- The position counts octets, and `é` has two. -/
example : parse "'é'+é" = .error (.parse 5 "é") := rfl

end PanelBus.Expr
