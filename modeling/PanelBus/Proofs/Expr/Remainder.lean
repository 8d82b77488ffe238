import PanelBus.Proofs.Expr.Layout
/-!
# What rules leave

Whether it reads or fails, every rule of the grammar leaves an end of the text it was given: what is
behind the value it read, or the text at which it failed.
-/

namespace PanelBus.Expr.Grammar

open Json (Value)

variable {α β : Type} {s rest stop : List Char} {nested operand : Rule Expr}

/-- The text behind what was read, or the text at which reading failed. -/
def remainder : Except (List Char) (α × List Char) → List Char
  | .ok (_, rest) => rest
  | .error stop => stop

/-- Whether it reads or fails, the rule leaves an end of the text. -/
def Leaves (rule : Rule α) : Prop := ∀ s, remainder (rule s) <:+ s

theorem Leaves.of_ok {rule : Rule α} {a : α} (h : Leaves rule) (hread : rule s = .ok (a, rest)) :
    rest <:+ s := by
  have hall := h s
  rwa [hread] at hall

theorem Leaves.of_error {rule : Rule α} (h : Leaves rule) (hstop : rule s = .error stop) :
    stop <:+ s := by
  have hall := h s
  rwa [hstop] at hall

theorem leaves_of {rule : Rule α}
    (hok : ∀ {s a rest}, rule s = .ok (a, rest) → ∃ t, s = t ++ rest)
    (herror : ∀ {s stop}, rule s = .error stop → stop = s) : Leaves rule := by
  intro s
  cases hrule : rule s with
  | ok result =>
      obtain ⟨t, ht⟩ := hok hrule
      exact ⟨t, ht.symm⟩
  | error stop => exact herror hrule ▸ List.suffix_rfl

/-! ## Rules made of rules -/

theorem leaves_done (a : α) : Leaves fun s => .ok (a, s) := fun _ => List.suffix_rfl

theorem leaves_failed : Leaves (α := α) fun s => .error s := fun _ => List.suffix_rfl

theorem Leaves.bind {first : Rule α} {next : α × List Char → Except (List Char) (β × List Char)}
    (h : Leaves first) (hnext : ∀ a, Leaves fun rest => next (a, rest)) :
    Leaves fun s => first s >>= next := by
  intro s
  dsimp only
  cases hfirst : first s with
  | error stop => exact h.of_error hfirst
  | ok result => exact (hnext result.1 result.2).trans (h.of_ok hfirst)

theorem Leaves.map {rule : Rule α} (h : Leaves rule) (f : α → β) :
    Leaves fun s => (rule s).map fun (a, rest) => (f a, rest) := by
  intro s
  dsimp only
  cases hrule : rule s with
  | error stop => exact h.of_error hrule
  | ok result => exact h.of_ok hrule

theorem Leaves.either {first second : Rule α} (h : Leaves first) (hsecond : Leaves second) :
    Leaves (either first second) := by
  intro s
  unfold Grammar.either
  cases hfirst : first s with
  | error stop => exact hsecond s
  | ok result => exact h.of_ok hfirst

theorem skipSpaces_suffix (s : List Char) : skipSpaces s <:+ s := List.dropWhile_suffix isSpace

theorem Leaves.spaced {rule : Rule α} (h : Leaves rule) : Leaves (spaced rule) := by
  have hbehind : Leaves fun s => rule s >>= fun (a, rest) => .ok (a, skipSpaces rest) :=
    h.bind fun _ rest => skipSpaces_suffix rest
  exact fun s => (hbehind (skipSpaces s)).trans (skipSpaces_suffix s)

/-! ## Tokens and constants -/

theorem leaves_token (word : String) : Leaves (token word) := by
  intro s
  unfold token
  split
  · exact List.drop_suffix _ s
  · exact List.suffix_rfl

theorem leaves_symbol (word : String) : Leaves (symbol word) := (leaves_token word).spaced

theorem leaves_lone (c : Char) : Leaves (lone c) := by
  intro s
  unfold lone
  split
  · next d rest =>
    split
    · exact List.suffix_cons d rest
    · exact List.suffix_rfl
  · exact List.suffix_rfl

theorem leaves_name : Leaves name := by
  refine leaves_of (fun hread => ⟨_, (exists_of_name hread).2⟩) fun {s stop} hstop => ?_
  unfold name at hstop
  split at hstop
  · split at hstop
    · cases hstop
    · exact (Except.error.inj hstop).symm
  · exact (Except.error.inj hstop).symm

theorem leaves_constant {rule : Rule Value}
    (hok : ∀ {s rest value}, rule s = .ok (value, rest) → ∃ t, s = t ++ rest ∧ Constant t value)
    (herror : ∀ {s stop}, rule s = .error stop → stop = s) : Leaves rule := by
  refine leaves_of (fun hread => ?_) herror
  obtain ⟨t, ht, -⟩ := hok hread
  exact ⟨t, ht⟩

theorem leaves_hexNumber : Leaves hexNumber := by
  refine leaves_constant exists_of_hexNumber fun {s stop} hstop => ?_
  unfold hexNumber at hstop
  cases htoken : either (token "0x") (token "0X") s with
  | error start =>
      rw [htoken] at hstop
      obtain rfl := Except.error.inj hstop
      unfold either token at htoken
      grind
  | ok result =>
      rw [htoken] at hstop
      simp only [bind, Except.bind] at hstop
      grind

theorem leaves_decimalNumber : Leaves decimalNumber := by
  refine leaves_constant exists_of_decimalNumber fun hstop => ?_
  unfold decimalNumber at hstop
  grind

theorem leaves_quoted : Leaves quoted := by
  refine leaves_constant exists_of_quoted fun hstop => ?_
  unfold quoted at hstop
  grind

theorem leaves_literal {rule : Rule Value} (h : Leaves rule) : Leaves (literal rule) :=
  h.map Expr.lit

/-! ## Operators -/

theorem leaves_operator {operator : Rule BinaryOp} (hmem : operator ∈ levels) :
    Leaves operator := by
  have htoken (o : BinaryOp) := (leaves_token o.symbol).map fun _ => o
  have hlone (c : Char) (o : BinaryOp) := (leaves_lone c).map fun _ => o
  simp only [levels, List.mem_cons, List.not_mem_nil, or_false] at hmem
  rcases hmem with rfl | rfl | rfl | rfl | rfl | rfl | rfl | rfl | rfl | rfl
  · exact (htoken .or).spaced
  · exact (htoken .and).spaced
  · exact (hlone '|' .bitOr).spaced
  · exact (htoken .bitXor).spaced
  · exact (hlone '&' .bitAnd).spaced
  · exact ((htoken .eq).either (htoken .ne)).spaced
  · exact ((htoken .le).either <| (htoken .ge).either <|
      (hlone '<' .lt).either (hlone '>' .gt)).spaced
  · exact ((htoken .shl).either (htoken .shr)).spaced
  · exact ((htoken .add).either (htoken .sub)).spaced
  · exact ((htoken .mul).either <| (htoken .div).either (htoken .rem)).spaced

theorem leaves_operations (h : Leaves operand) {operator : Rule BinaryOp}
    (hoperator : Leaves operator) (rounds : Nat) (lhs : Expr) :
    Leaves (operations operand operator rounds lhs) := by
  induction rounds generalizing lhs with
  | zero => exact leaves_done lhs
  | succ rounds ih =>
      intro s
      rw [operations]
      cases hread : operator s with
      | error stop => exact List.suffix_rfl
      | ok result =>
          obtain ⟨op, after⟩ := result
          exact ((h.bind fun rhs => ih (.binary op lhs rhs)) after).trans (hoperator.of_ok hread)

theorem leaves_binaryFrom (h : Leaves operand) {operators : List (Rule BinaryOp)}
    (hlevels : ∀ operator ∈ operators, operator ∈ levels) :
    Leaves (binaryFrom operand operators) := by
  induction operators with
  | nil => exact h
  | cons operator tighter ih =>
      obtain ⟨hmem, htighter⟩ := List.forall_mem_cons.1 hlevels
      have hlhs := ih htighter
      exact hlhs.bind fun lhs rest =>
        leaves_operations hlhs (leaves_operator hmem) rest.length lhs rest

/-! ## Expressions -/

theorem moreItems_suffix (h : Leaves nested) (rounds : Nat) (s : List Char) :
    (moreItems nested rounds s).2 <:+ s := by
  induction rounds generalizing s with
  | zero => exact List.suffix_rfl
  | succ rounds ih =>
      rw [moreItems]
      split
      · exact List.suffix_rfl
      next before hcomma =>
      split
      · exact List.suffix_rfl
      next item behind hitem =>
      exact (ih behind).trans ((h.of_ok hitem).trans ((leaves_symbol ",").of_ok hcomma))

theorem items_suffix (h : Leaves nested) (s : List Char) : (items nested s).2 <:+ s := by
  unfold items
  split
  · exact List.suffix_rfl
  next item behind hitem =>
  exact (moreItems_suffix h behind.length behind).trans (h.of_ok hitem)

/-- What a list or a call reads behind its opening bracket. -/
theorem leaves_closed (h : Leaves nested) (word : String) (f : List Expr → α) :
    Leaves fun s =>
      symbol word (items nested s).2 >>= fun (_, rest) => .ok (f (items nested s).1, rest) := by
  intro s
  have hclose : Leaves fun rest =>
      symbol word rest >>= fun (_, rest) => .ok (f (items nested s).1, rest) :=
    (leaves_symbol word).bind fun _ => leaves_done _
  exact (hclose (items nested s).2).trans (items_suffix h s)

theorem leaves_listLiteral (h : Leaves nested) : Leaves (listLiteral nested) :=
  (leaves_token "[").bind fun _ rest => leaves_closed h "]" Expr.list rest

theorem leaves_parenthesised (h : Leaves nested) : Leaves (parenthesised nested) :=
  (leaves_token "(").bind fun _ => h.bind fun e => (leaves_symbol ")").bind fun _ => leaves_done e

theorem leaves_arguments (h : Leaves nested) : Leaves (arguments nested) :=
  (leaves_symbol "(").bind fun _ rest => leaves_closed h ")" id rest

theorem leaves_named (h : Leaves nested) : Leaves (named nested) := by
  refine leaves_name.bind fun word rest => ?_
  dsimp only
  split
  · exact List.suffix_rfl
  split
  · exact List.suffix_rfl
  split
  · exact List.suffix_rfl
  split
  · next args behind hargs => exact (leaves_arguments h).of_ok hargs
  · exact List.suffix_rfl

theorem leaves_primary (h : Leaves nested) : Leaves (primary nested) :=
  .spaced <| (leaves_literal leaves_hexNumber).either <|
    (leaves_literal leaves_decimalNumber).either <| (leaves_literal leaves_quoted).either <|
      (leaves_listLiteral h).either <| (leaves_parenthesised h).either (leaves_named h)

theorem leaves_indexSuffix (h : Leaves nested) (target : Expr) :
    Leaves (indexSuffix nested target) :=
  (leaves_symbol "[").bind fun _ => h.bind fun position =>
    (leaves_symbol "]").bind fun _ => leaves_done (Expr.index target position)

theorem leaves_memberSuffix (target : Expr) : Leaves (memberSuffix target) :=
  (leaves_symbol ".").bind fun _ => leaves_name.bind fun field =>
    leaves_done (Expr.member target field)

theorem suffixes_suffix (h : Leaves nested) (rounds : Nat) (target : Expr) (s : List Char) :
    (suffixes nested rounds target s).2 <:+ s := by
  induction rounds generalizing target s with
  | zero => exact List.suffix_rfl
  | succ rounds ih =>
      rw [suffixes]
      split
      · exact List.suffix_rfl
      next longer behind hsuffix =>
      have hone := (leaves_indexSuffix h target).either (leaves_memberSuffix target)
      exact (ih longer behind).trans (hone.of_ok hsuffix)

theorem leaves_suffixed (h : Leaves nested) : Leaves (suffixed nested) :=
  (leaves_primary h).bind fun target rest => suffixes_suffix h rest.length target rest

theorem leaves_applied (op : UnaryOp) (h : Leaves operand) : Leaves (applied op operand) :=
  (leaves_symbol op.symbol).bind fun _ => h.bind fun e => leaves_done (Expr.unary op e)

theorem leaves_unaryFrom (h : Leaves nested) (rounds : Nat) : Leaves (unaryFrom nested rounds) := by
  induction rounds with
  | zero => exact leaves_suffixed h
  | succ rounds ih =>
      exact (leaves_applied .not ih).either <| (leaves_applied .neg ih).either <|
        (leaves_applied .bitNot ih).either (leaves_suffixed h)

theorem leaves_unary (h : Leaves nested) : Leaves (unary nested) :=
  fun s => leaves_unaryFrom h s.length s

theorem leaves_branches (h : Leaves nested) : Leaves (branches nested) :=
  (leaves_symbol "?").bind fun _ => h.bind fun yes => (leaves_symbol ":").bind fun _ =>
    h.bind fun no => leaves_done (yes, no)

theorem leaves_conditional (h : Leaves nested) : Leaves (conditional nested) := by
  refine (leaves_binaryFrom (leaves_unary h) fun _ hmem => hmem).bind fun test rest => ?_
  dsimp only
  split
  · next hbranches => exact (leaves_branches h).of_ok hbranches
  · exact List.suffix_rfl

theorem leaves_expression (depth : Nat) : Leaves (expression depth) := by
  induction depth with
  | zero => exact leaves_failed
  | succ depth ih => exact leaves_conditional ih

/-! ## Sources -/

theorem skipReturn_suffix (s : List Char) : skipReturn s <:+ s := by
  obtain ⟨before, -, hs⟩ := exists_of_skipReturn s
  exact ⟨before, hs.symm⟩

theorem skipEnd_suffix (s : List Char) : skipEnd s <:+ s := by
  unfold skipEnd
  split
  · next hsymbol => exact (leaves_symbol ";").of_ok hsymbol
  · exact skipSpaces_suffix s

/-- A source that is not read is refused at one of its ends. -/
theorem suffix_of_program (h : program s = .error stop) : stop <:+ s := by
  unfold program at h
  cases hexpression : expression (s.length + 1) (skipReturn s) with
  | error start =>
      rw [hexpression] at h
      obtain rfl := Except.error.inj h
      exact ((leaves_expression _).of_error hexpression).trans (skipReturn_suffix s)
  | ok result =>
      obtain ⟨e, behind⟩ := result
      have hbehind := ((leaves_expression _).of_ok hexpression).trans (skipReturn_suffix s)
      simp only [hexpression, bind, Except.bind] at h
      split at h
      · cases h
      · obtain rfl := Except.error.inj h
        exact (skipEnd_suffix behind).trans hbehind

theorem leaves_program : Leaves fun s => (program s).map fun e => (e, []) := by
  intro s
  dsimp only
  cases hprogram : program s with
  | error stop => exact suffix_of_program hprogram
  | ok e => exact List.nil_suffix

/-! ## Every rule -/

/-- The rules that reading a source runs through, and all that can be put together from them. -/
inductive Part : {α : Type} → Rule α → Prop where
  | token (word : String) : Part (token word)
  | lone (c : Char) : Part (lone c)
  | name : Part name
  | hexNumber : Part hexNumber
  | decimalNumber : Part decimalNumber
  | quoted : Part quoted
  | skipSpaces : Part fun s => .ok ((), skipSpaces s)
  | map {α β : Type} {rule : Rule α} (f : α → β) (h : Part rule) :
      Part fun s => (rule s).map fun (a, rest) => (f a, rest)
  | spaced {α : Type} {rule : Rule α} (h : Part rule) : Part (spaced rule)
  | either {α : Type} {first second : Rule α} (h : Part first) (hsecond : Part second) :
      Part (either first second)
  | operator {operator : Rule BinaryOp} (hmem : operator ∈ levels) : Part operator
  | operations {operand : Rule Expr} {operator : Rule BinaryOp} (h : Part operand)
      (hoperator : Part operator) (rounds : Nat) (lhs : Expr) :
      Part (operations operand operator rounds lhs)
  | binaryFrom {operand : Rule Expr} {operators : List (Rule BinaryOp)} (h : Part operand)
      (hlevels : ∀ operator ∈ operators, operator ∈ levels) : Part (binaryFrom operand operators)
  | moreItems {nested : Rule Expr} (h : Part nested) (rounds : Nat) :
      Part fun s => .ok (moreItems nested rounds s)
  | items {nested : Rule Expr} (h : Part nested) : Part fun s => .ok (items nested s)
  | listLiteral {nested : Rule Expr} (h : Part nested) : Part (listLiteral nested)
  | parenthesised {nested : Rule Expr} (h : Part nested) : Part (parenthesised nested)
  | arguments {nested : Rule Expr} (h : Part nested) : Part (arguments nested)
  | named {nested : Rule Expr} (h : Part nested) : Part (named nested)
  | primary {nested : Rule Expr} (h : Part nested) : Part (primary nested)
  | indexSuffix {nested : Rule Expr} (h : Part nested) (target : Expr) :
      Part (indexSuffix nested target)
  | memberSuffix (target : Expr) : Part (memberSuffix target)
  | suffixes {nested : Rule Expr} (h : Part nested) (rounds : Nat) (target : Expr) :
      Part fun s => .ok (suffixes nested rounds target s)
  | suffixed {nested : Rule Expr} (h : Part nested) : Part (suffixed nested)
  | applied {operand : Rule Expr} (op : UnaryOp) (h : Part operand) : Part (applied op operand)
  | unaryFrom {nested : Rule Expr} (h : Part nested) (rounds : Nat) : Part (unaryFrom nested rounds)
  | unary {nested : Rule Expr} (h : Part nested) : Part (unary nested)
  | branches {nested : Rule Expr} (h : Part nested) : Part (branches nested)
  | conditional {nested : Rule Expr} (h : Part nested) : Part (conditional nested)
  | expression (depth : Nat) : Part (expression depth)
  | skipReturn : Part fun s => .ok ((), skipReturn s)
  | skipEnd : Part fun s => .ok ((), skipEnd s)
  | program : Part fun s => (program s).map fun e => (e, [])

theorem Part.leaves {rule : Rule α} (h : Part rule) : Leaves rule := by
  induction h with
  | token word => exact leaves_token word
  | lone c => exact leaves_lone c
  | name => exact leaves_name
  | hexNumber => exact leaves_hexNumber
  | decimalNumber => exact leaves_decimalNumber
  | quoted => exact leaves_quoted
  | skipSpaces => exact skipSpaces_suffix
  | map f _ ih => exact ih.map f
  | spaced _ ih => exact ih.spaced
  | either _ _ ih ihsecond => exact ih.either ihsecond
  | operator hmem => exact leaves_operator hmem
  | operations _ _ rounds lhs ih ihoperator => exact leaves_operations ih ihoperator rounds lhs
  | binaryFrom _ hlevels ih => exact leaves_binaryFrom ih hlevels
  | moreItems _ rounds ih => exact moreItems_suffix ih rounds
  | items _ ih => exact items_suffix ih
  | listLiteral _ ih => exact leaves_listLiteral ih
  | parenthesised _ ih => exact leaves_parenthesised ih
  | arguments _ ih => exact leaves_arguments ih
  | named _ ih => exact leaves_named ih
  | primary _ ih => exact leaves_primary ih
  | indexSuffix _ target ih => exact leaves_indexSuffix ih target
  | memberSuffix target => exact leaves_memberSuffix target
  | suffixes _ rounds target ih => exact suffixes_suffix ih rounds target
  | suffixed _ ih => exact leaves_suffixed ih
  | applied op _ ih => exact leaves_applied op ih
  | unaryFrom _ rounds ih => exact leaves_unaryFrom ih rounds
  | unary _ ih => exact leaves_unary ih
  | branches _ ih => exact leaves_branches ih
  | conditional _ ih => exact leaves_conditional ih
  | expression depth => exact leaves_expression depth
  | skipReturn => exact skipReturn_suffix
  | skipEnd => exact skipEnd_suffix
  | program => exact leaves_program

end PanelBus.Expr.Grammar
