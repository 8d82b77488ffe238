import PanelBus.Proofs.Expr.Layout
import PanelBus.Proofs.Expr.RoundTrip
/-!
# The size of trees

Every part of a tree stands for characters of its own, so the tree of a source has no more parts
than the source has octets.
-/

namespace PanelBus.Expr

open Json (Value)

mutual

/-- The number of expressions in a tree, the tree itself among them. -/
def nodes : Expr → Nat
  | .lit _ => 1
  | .list items => 1 + nodesAll items
  | .ident _ => 1
  | .index target position => 1 + target.nodes + position.nodes
  | .member target _ => 1 + target.nodes
  | .call _ args => 1 + nodesAll args
  | .unary _ operand => 1 + operand.nodes
  | .binary _ lhs rhs => 1 + lhs.nodes + rhs.nodes
  | .cond test yes no => 1 + test.nodes + yes.nodes + no.nodes

/-- The number of expressions in several trees. -/
def nodesAll : List Expr → Nat
  | [] => 0
  | e :: rest => e.nodes + nodesAll rest

end

namespace Grammar

variable {α : Type} {s rest : List Char} {nested operand : Rule Expr} {e : Expr}

/-! ## Tokens and constants -/

/-- Whatever the rule reads is one character long or longer. -/
def Advances (rule : Rule α) : Prop :=
  ∀ ⦃s a rest⦄, rule s = .ok (a, rest) → rest.length < s.length

theorem Advances.either {first second : Rule α} (h : Advances first) (hsecond : Advances second) :
    Advances (either first second) := by
  intro s a rest hread
  rcases cases_of_either hread with hread | hread
  · exact h hread
  · exact hsecond hread

/-- Blanks around it make what is read no shorter. -/
theorem exists_of_spaced_length {rule : Rule α} {a : α} (h : spaced rule s = .ok (a, rest)) :
    ∃ before after, rule before = .ok (a, after) ∧ before.length ≤ s.length ∧
      rest.length ≤ after.length := by
  obtain ⟨w, w', before, after, -, -, rfl, hrule, rfl⟩ := exists_of_spaced h
  refine ⟨before, w' ++ rest, hrule, ?_, ?_⟩
  · rw [List.length_append]
    exact Nat.le_add_left _ _
  · rw [List.length_append]
    exact Nat.le_add_left _ _

theorem Advances.spaced {rule : Rule α} (h : Advances rule) : Advances (spaced rule) := by
  intro s a rest hread
  obtain ⟨before, after, hrule, hbefore, hafter⟩ := exists_of_spaced_length hread
  have hshorter := h hrule
  omega

theorem advances_token {word : String} (hword : word.toList ≠ []) : Advances (token word) := by
  intro s _ rest hread
  have hsome := List.length_pos_iff.2 hword
  rw [eq_append_of_token hread, List.length_append]
  omega

theorem advances_symbol {word : String} (hword : word.toList ≠ []) : Advances (symbol word) :=
  (advances_token hword).spaced

theorem advances_name : Advances name := by
  intro s word rest hread
  obtain ⟨⟨c, more, hchars, -⟩, rfl⟩ := exists_of_name hread
  rw [hchars, List.length_append, List.length_cons]
  omega

theorem advances_operator {operator : Rule BinaryOp} (hmem : operator ∈ levels) :
    Advances operator := by
  intro s op rest hread
  obtain ⟨w, w', -, -, rfl⟩ := exists_of_operator hmem hread
  have hsymbol : op.symbol.toList ≠ [] := by cases op <;> decide
  have hsome := List.length_pos_iff.2 hsymbol
  simp only [List.length_append]
  omega

theorem length_dropWhile_le (p : Char → Bool) (s : List Char) : (s.dropWhile p).length ≤ s.length :=
  (List.dropWhile_suffix p).length_le

theorem advances_hexNumber : Advances hexNumber := by
  intro s value rest hread
  obtain ⟨⟨_, more⟩, hprefix, hread⟩ := exists_of_bind hread
  have hlower : Advances (token "0x") := advances_token (by decide)
  have hupper : Advances (token "0X") := advances_token (by decide)
  have hmore := hlower.either hupper hprefix
  have hdigits := length_dropWhile_le Text.isHexDigit more
  dsimp only at hread
  split at hread
  · split at hread
    · cases hread
    · obtain ⟨-, rfl⟩ := Prod.mk.inj (Except.ok.inj hread)
      exact Nat.lt_of_le_of_lt hdigits hmore
  · cases hread

theorem advances_decimalNumber : Advances decimalNumber := by
  intro s value rest hread
  have hsplit := congrArg List.length (List.takeWhile_append_dropWhile (p := Text.isDigit) (l := s))
  rw [List.length_append] at hsplit
  unfold decimalNumber at hread
  dsimp only at hread
  split at hread
  · cases hread
  next hdigits =>
  have hsome := List.length_pos_iff.2 (mt List.isEmpty_iff.2 hdigits)
  suffices hrest : rest.length ≤ (s.dropWhile Text.isDigit).length by omega
  have hwhole : (if Text.ofDecimalDigits (s.takeWhile Text.isDigit) < Word.half then
      Except.ok (Value.nat (Text.ofDecimalDigits (s.takeWhile Text.isDigit)),
        s.dropWhile Text.isDigit) else .error s) = .ok (value, rest) →
      rest.length ≤ (s.dropWhile Text.isDigit).length := by
    intro h
    split at h
    · obtain ⟨-, rfl⟩ := Prod.mk.inj (Except.ok.inj h)
      exact Nat.le_refl _
    · cases h
  split at hread
  · split at hread
    · exact hwhole hread
    · split at hread
      · obtain ⟨-, rfl⟩ := Prod.mk.inj (Except.ok.inj hread)
        rw [List.length_drop]
        exact Nat.sub_le _ _
      · cases hread
  · exact hwhole hread

theorem advances_quotedFrom {quote : Char} {acc : List Char} {text : String}
    (h : quotedFrom quote acc s = some (text, rest)) : rest.length < s.length := by
  fun_induction quotedFrom quote acc s with
  | case1 => cases h
  | case2 acc rest =>
      cases h
      exact Nat.lt_succ_self _
  | case3 => cases h
  | case4 acc c rest plain hslash ih => exact Nat.lt_succ_of_lt (Nat.lt_succ_of_lt (ih h))
  | case5 acc c rest hquote hslash ih => exact Nat.lt_succ_of_lt (ih h)

theorem advances_quoted : Advances quoted := by
  intro s value rest hread
  unfold quoted at hread
  cases s with
  | nil => cases hread
  | cons c more =>
      dsimp only at hread
      split at hread
      · split at hread
        · next text after hquoted =>
          obtain ⟨-, rfl⟩ := Prod.mk.inj (Except.ok.inj hread)
          exact Nat.lt_succ_of_lt (advances_quotedFrom hquoted)
        · cases hread
      · cases hread

/-! ## Rules for expressions -/

/-- What the rule reads has no more parts than characters. -/
def Pays (rule : Rule Expr) : Prop :=
  ∀ ⦃s e rest⦄, rule s = .ok (e, rest) → e.nodes + rest.length ≤ s.length

theorem Pays.either {first second : Rule Expr} (h : Pays first) (hsecond : Pays second) :
    Pays (either first second) := by
  intro s e rest hread
  rcases cases_of_either hread with hread | hread
  · exact h hread
  · exact hsecond hread

theorem Pays.spaced {rule : Rule Expr} (h : Pays rule) : Pays (spaced rule) := by
  intro s e rest hread
  obtain ⟨before, after, hrule, hbefore, hafter⟩ := exists_of_spaced_length hread
  have hpaid := h hrule
  omega

theorem pays_literal {rule : Rule Value} (h : Advances rule) : Pays (literal rule) := by
  intro s e rest hread
  unfold literal at hread
  cases hvalue : rule s with
  | error stop =>
      rw [hvalue] at hread
      cases hread
  | ok result =>
      rw [hvalue] at hread
      obtain ⟨rfl, rfl⟩ := Prod.mk.inj (Except.ok.inj hread)
      have hshorter := h hvalue
      rw [nodes]
      omega

theorem length_moreItems (h : Pays nested) {rounds : Nat} {es : List Expr}
    (hread : moreItems nested rounds s = (es, rest)) : nodesAll es + rest.length ≤ s.length := by
  have hnone : ∀ {s : List Char} {es : List Expr}, ([], s) = (es, rest) →
      nodesAll es + rest.length ≤ s.length := by
    intro s es hsame
    obtain ⟨rfl, rfl⟩ := Prod.mk.inj hsame
    exact Nat.le_of_eq (by rw [nodesAll, Nat.zero_add])
  induction rounds generalizing s es with
  | zero => exact hnone hread
  | succ rounds ih =>
      rw [moreItems] at hread
      split at hread
      · exact hnone hread
      next after hcomma =>
      split at hread
      · exact hnone hread
      next item behind hitem =>
      cases hmore : moreItems nested rounds behind with
      | mk others last =>
        rw [hmore] at hread
        obtain ⟨rfl, rfl⟩ := Prod.mk.inj hread
        have hcomma := advances_symbol (by decide) hcomma
        have hitem := h hitem
        have hmore := ih hmore
        rw [nodesAll]
        omega

theorem length_items (h : Pays nested) {es : List Expr} (hread : items nested s = (es, rest)) :
    nodesAll es + rest.length ≤ s.length := by
  unfold items at hread
  split at hread
  · obtain ⟨rfl, rfl⟩ := Prod.mk.inj hread
    exact Nat.le_of_eq (by rw [nodesAll, Nat.zero_add])
  next item behind hitem =>
  cases hmore : moreItems nested behind.length behind with
  | mk others last =>
    rw [hmore] at hread
    obtain ⟨rfl, rfl⟩ := Prod.mk.inj hread
    have hitem := h hitem
    have hmore := length_moreItems h hmore
    rw [nodesAll]
    omega

theorem pays_listLiteral (h : Pays nested) : Pays (listLiteral nested) := by
  intro s e rest hread
  obtain ⟨⟨_, before⟩, hopen, hread⟩ := exists_of_bind hread
  cases hitems : items nested before with
  | mk members after =>
    simp only [hitems] at hread
    obtain ⟨⟨_, behind⟩, hclose, hlast⟩ := exists_of_bind hread
    obtain ⟨rfl, rfl⟩ : .list members = e ∧ behind = rest := Prod.mk.inj (Except.ok.inj hlast)
    have hopen := advances_token (by decide) hopen
    have hitems := length_items h hitems
    have hclose := advances_symbol (by decide) hclose
    rw [nodes]
    omega

theorem pays_parenthesised (h : Pays nested) : Pays (parenthesised nested) := by
  intro s e rest hread
  obtain ⟨⟨_, before⟩, hopen, hread⟩ := exists_of_bind hread
  obtain ⟨⟨inner, after⟩, hnested, hread⟩ := exists_of_bind hread
  obtain ⟨⟨_, behind⟩, hclose, hlast⟩ := exists_of_bind hread
  obtain ⟨rfl, rfl⟩ := Prod.mk.inj (Except.ok.inj hlast)
  have hopen := advances_token (by decide) hopen
  have hnested := h hnested
  have hclose := advances_symbol (by decide) hclose
  omega

theorem length_arguments (h : Pays nested) {args : List Expr}
    (hread : arguments nested s = .ok (args, rest)) : nodesAll args + rest.length ≤ s.length := by
  obtain ⟨⟨_, before⟩, hopen, hread⟩ := exists_of_bind hread
  cases hitems : items nested before with
  | mk members after =>
    simp only [hitems] at hread
    obtain ⟨⟨_, behind⟩, hclose, hlast⟩ := exists_of_bind hread
    obtain ⟨rfl, rfl⟩ : members = args ∧ behind = rest := Prod.mk.inj (Except.ok.inj hlast)
    have hopen := advances_symbol (by decide) hopen
    have hitems := length_items h hitems
    have hclose := advances_symbol (by decide) hclose
    omega

theorem pays_named (h : Pays nested) : Pays (named nested) := by
  intro s e rest hread
  obtain ⟨⟨word, after⟩, hname, hread⟩ := exists_of_bind hread
  have hname := advances_name hname
  have hword : ∀ e : Expr, e.nodes = 1 → e.nodes + after.length ≤ s.length := by
    intro e hone
    omega
  dsimp only at hread
  split at hread
  · obtain ⟨rfl, rfl⟩ := Prod.mk.inj (Except.ok.inj hread)
    exact hword _ (by rw [nodes])
  · split at hread
    · obtain ⟨rfl, rfl⟩ := Prod.mk.inj (Except.ok.inj hread)
      exact hword _ (by rw [nodes])
    · split at hread
      · obtain ⟨rfl, rfl⟩ := Prod.mk.inj (Except.ok.inj hread)
        exact hword _ (by rw [nodes])
      · split at hread
        · next args behind hargs =>
          obtain ⟨rfl, rfl⟩ := Prod.mk.inj (Except.ok.inj hread)
          have hargs := length_arguments h hargs
          rw [nodes]
          omega
        · obtain ⟨rfl, rfl⟩ := Prod.mk.inj (Except.ok.inj hread)
          exact hword _ (by rw [nodes])

theorem pays_primary (h : Pays nested) : Pays (primary nested) :=
  .spaced <| (pays_literal advances_hexNumber).either <|
    (pays_literal advances_decimalNumber).either <| (pays_literal advances_quoted).either <|
      (pays_listLiteral h).either <| (pays_parenthesised h).either (pays_named h)

theorem length_suffix (h : Pays nested) {target : Expr}
    (hread : either (indexSuffix nested target) (memberSuffix target) s = .ok (e, rest)) :
    e.nodes + rest.length ≤ target.nodes + s.length := by
  rcases cases_of_either hread with hread | hread
  · obtain ⟨⟨_, before⟩, hopen, hread⟩ := exists_of_bind hread
    obtain ⟨⟨position, after⟩, hposition, hread⟩ := exists_of_bind hread
    obtain ⟨⟨_, behind⟩, hclose, hlast⟩ := exists_of_bind hread
    obtain ⟨rfl, rfl⟩ := Prod.mk.inj (Except.ok.inj hlast)
    have hopen := advances_symbol (by decide) hopen
    have hposition := h hposition
    have hclose := advances_symbol (by decide) hclose
    rw [nodes]
    omega
  · obtain ⟨⟨_, before⟩, hpoint, hread⟩ := exists_of_bind hread
    obtain ⟨⟨field, after⟩, hname, hlast⟩ := exists_of_bind hread
    obtain ⟨rfl, rfl⟩ := Prod.mk.inj (Except.ok.inj hlast)
    have hpoint := advances_symbol (by decide) hpoint
    have hname := advances_name hname
    rw [nodes]
    omega

theorem length_suffixes (h : Pays nested) (rounds : Nat) (target : Expr) (s : List Char) :
    (suffixes nested rounds target s).1.nodes + (suffixes nested rounds target s).2.length ≤
      target.nodes + s.length := by
  induction rounds generalizing target s with
  | zero => exact Nat.le_refl _
  | succ rounds ih =>
      rw [suffixes]
      split
      · exact Nat.le_refl _
      · next longer after hsuffix => exact Nat.le_trans (ih longer after) (length_suffix h hsuffix)

theorem pays_suffixed (h : Pays nested) : Pays (suffixed nested) := by
  intro s e rest hread
  obtain ⟨⟨target, after⟩, hprimary, hlast⟩ := exists_of_bind hread
  have hsuffixes := length_suffixes h after.length target after
  rw [Except.ok.inj hlast] at hsuffixes
  exact Nat.le_trans hsuffixes (pays_primary h hprimary)

/-! ## Operators -/

theorem pays_applied (op : UnaryOp) (h : Pays operand) : Pays (applied op operand) := by
  intro s e rest hread
  obtain ⟨⟨_, before⟩, hsymbol, hread⟩ := exists_of_bind hread
  obtain ⟨⟨inner, after⟩, hoperand, hlast⟩ := exists_of_bind hread
  obtain ⟨rfl, rfl⟩ := Prod.mk.inj (Except.ok.inj hlast)
  have hsymbol := advances_symbol (by cases op <;> decide) hsymbol
  have hoperand := h hoperand
  rw [nodes]
  omega

theorem pays_unaryFrom (h : Pays nested) (rounds : Nat) : Pays (unaryFrom nested rounds) := by
  induction rounds with
  | zero => exact pays_suffixed h
  | succ rounds ih =>
      exact (pays_applied .not ih).either <| (pays_applied .neg ih).either <|
        (pays_applied .bitNot ih).either <| pays_suffixed h

theorem pays_unary (h : Pays nested) : Pays (unary nested) :=
  fun s _ _ hread => pays_unaryFrom h s.length hread

theorem length_operations (h : Pays operand) {operator : Rule BinaryOp}
    (hmem : operator ∈ levels) {rounds : Nat} {lhs : Expr}
    (hread : operations operand operator rounds lhs s = .ok (e, rest)) :
    e.nodes + rest.length ≤ lhs.nodes + s.length := by
  induction rounds generalizing lhs s with
  | zero =>
      obtain ⟨rfl, rfl⟩ := Prod.mk.inj (Except.ok.inj hread)
      exact Nat.le_refl _
  | succ rounds ih =>
      rw [operations] at hread
      split at hread
      · obtain ⟨rfl, rfl⟩ := Prod.mk.inj (Except.ok.inj hread)
        exact Nat.le_refl _
      · next op before hoperator =>
        obtain ⟨⟨rhs, after⟩, hoperand, hread⟩ := exists_of_bind hread
        have hoperator := advances_operator hmem hoperator
        have hoperand := h hoperand
        have hmore := ih hread
        rw [nodes] at hmore
        omega

theorem pays_binaryFrom (h : Pays operand) {operators : List (Rule BinaryOp)}
    (hlevels : ∀ operator ∈ operators, operator ∈ levels) :
    Pays (binaryFrom operand operators) := by
  induction operators with
  | nil => exact h
  | cons operator tighter ih =>
      obtain ⟨hmem, htighter⟩ := List.forall_mem_cons.1 hlevels
      intro s e rest hread
      obtain ⟨⟨lhs, after⟩, hlhs, hread⟩ := exists_of_bind hread
      have hlhs := ih htighter hlhs
      have hmore := length_operations (ih htighter) hmem hread
      omega

/-! ## Sources -/

theorem pays_conditional (h : Pays nested) : Pays (conditional nested) := by
  intro s e rest hread
  obtain ⟨⟨test, after⟩, htest, hread⟩ := exists_of_bind hread
  have htest := pays_binaryFrom (pays_unary h) (fun _ hmem => hmem) htest
  dsimp only at hread
  split at hread
  · next yes no last hbranches =>
    obtain ⟨rfl, rfl⟩ := Prod.mk.inj (Except.ok.inj hread)
    obtain ⟨⟨_, before⟩, hquestion, hbranches⟩ := exists_of_bind hbranches
    obtain ⟨⟨first, middle⟩, hyes, hbranches⟩ := exists_of_bind hbranches
    obtain ⟨⟨_, behind⟩, hcolon, hbranches⟩ := exists_of_bind hbranches
    obtain ⟨⟨second, final⟩, hno, hlast⟩ := exists_of_bind hbranches
    obtain ⟨hpair, rfl⟩ := Prod.mk.inj (Except.ok.inj hlast)
    obtain ⟨rfl, rfl⟩ := Prod.mk.inj hpair
    have hquestion := advances_symbol (by decide) hquestion
    have hyes := h hyes
    have hcolon := advances_symbol (by decide) hcolon
    have hno := h hno
    rw [nodes]
    omega
  · obtain ⟨rfl, rfl⟩ := Prod.mk.inj (Except.ok.inj hread)
    exact htest

theorem pays_expression (depth : Nat) : Pays (expression depth) := by
  induction depth with
  | zero => exact fun _ _ _ hread => nomatch hread
  | succ depth ih => exact pays_conditional ih

theorem nodes_le_of_program (h : program s = .ok e) : e.nodes ≤ s.length := by
  obtain ⟨⟨tree, after⟩, hexpression, hread⟩ := exists_of_bind h
  obtain ⟨before, -, hs⟩ := exists_of_skipReturn s
  have hlength := congrArg List.length hs
  rw [List.length_append] at hlength
  have hpaid := pays_expression _ hexpression
  dsimp only at hread
  split at hread
  · obtain rfl := Except.ok.inj hread
    omega
  · cases hread

end Grammar

theorem length_le_utf8ByteSize (s : List Char) : s.length ≤ (String.ofList s).utf8ByteSize := by
  induction s with
  | nil => exact Nat.zero_le _
  | cons c rest ih =>
      have hc := c.utf8Size_pos
      rw [String.ofList_cons, String.utf8ByteSize_append, String.utf8ByteSize_singleton,
        List.length_cons]
      omega

/-- The tree of a source has no more parts than the source has octets. -/
theorem nodes_le_of_parse {source : String} {e : Expr} (h : parse source = .ok e) :
    e.nodes ≤ source.utf8ByteSize ∧ source.utf8ByteSize ≤ maxSourceSize := by
  obtain ⟨hsize, -, hprogram⟩ := parse_eq_ok_iff.1 h
  have hoctets := length_le_utf8ByteSize source.toList
  rw [String.ofList_toList] at hoctets
  exact ⟨Nat.le_trans (Grammar.nodes_le_of_program hprogram) hoctets, hsize⟩

end PanelBus.Expr
