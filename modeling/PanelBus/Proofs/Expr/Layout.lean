import PanelBus.Proofs.Expr.Brackets
import PanelBus.Proofs.Expr.Rules
/-!
# Layouts

A form is an expression as it is written, with its parentheses.  Whatever the grammar reads is the
text of a form, laid out with blanks between its parts, and the form has the tree that was read.
-/

namespace PanelBus.Expr.Grammar

open Json (Value)

/-- An expression as it is written. -/
inductive Form where
  | constant (value : Value)
  | ident (name : String)
  | list (members : List Form)
  | paren (inner : Form)
  | index (target position : Form)
  | member (target : Form) (field : String)
  | call (name : String) (args : List Form)
  | unary (op : UnaryOp) (operand : Form)
  | binary (op : BinaryOp) (lhs rhs : Form)
  | cond (test yes no : Form)

namespace Form

mutual

/-- The tree of a form. -/
def expr : Form → Expr
  | .constant value => .lit value
  | .ident name => .ident name
  | .list members => .list (exprs members)
  | .paren inner => inner.expr
  | .index target position => .index target.expr position.expr
  | .member target field => .member target.expr field
  | .call name args => .call name (exprs args)
  | .unary op operand => .unary op operand.expr
  | .binary op lhs rhs => .binary op lhs.expr rhs.expr
  | .cond test yes no => .cond test.expr yes.expr no.expr

/-- The trees of forms. -/
def exprs : List Form → List Expr
  | [] => []
  | form :: rest => form.expr :: exprs rest

end

/-- How loose a form is: 0 with or without suffixes, 1 with an operator before it, 2 with operators
between its parts, 3 for a conditional. -/
def rank : Form → Nat
  | .unary .. => 1
  | .binary .. => 2
  | .cond .. => 3
  | _ => 0

end Form

/-- The text holds nothing but blanks. -/
def Blank (s : List Char) : Prop := ∀ c ∈ s, isSpace c = true

/-- The text is that of a constant. -/
inductive Constant : List Char → Value → Prop where
  | keyword {word : String} {value : Value} (h : (word, value) ∈ keywords) :
      Constant word.toList value
  | whole {t : List Char} (n : Nat) (h : ∀ c ∈ t, isNamePart c = true) : Constant t (.nat n)
  | fraction {t : List Char} {x : Binary64} (h : ∀ c ∈ t, isNamePart c = true ∨ c = '.')
      (hfinite : x.isFinite = true) : Constant t (.float x)
  | quoted {quote : Quote} {t : List Char} (s : String) (h : Enclosed quote t) :
      Constant (quote.char :: (t ++ [quote.char])) (.str s)

/-- What is laid out: one form, forms with commas between them, or more forms, each behind a
comma. -/
inductive Piece where
  | one (form : Form)
  | items (forms : List Form)
  | more (forms : List Form)

/-- The text is a layout of the piece. -/
inductive Layout : List Char → Piece → Prop where
  | blankLeft {w t : List Char} {piece : Piece} (hw : Blank w) (h : Layout t piece) :
      Layout (w ++ t) piece
  | blankRight {w t : List Char} {piece : Piece} (h : Layout t piece) (hw : Blank w) :
      Layout (t ++ w) piece
  | constant {t : List Char} {value : Value} (h : Constant t value) :
      Layout t (.one (.constant value))
  | ident {word : String} (hword : IsName word) : Layout word.toList (.one (.ident word))
  | list {t : List Char} {members : List Form} (h : Layout t (.items members)) :
      Layout ('[' :: (t ++ [']'])) (.one (.list members))
  | paren {t : List Char} {inner : Form} (h : Layout t (.one inner)) :
      Layout ('(' :: (t ++ [')'])) (.one (.paren inner))
  | index {t u : List Char} {target position : Form} (htarget : Layout t (.one target))
      (hrank : target.rank ≤ 0) (hposition : Layout u (.one position)) :
      Layout (t ++ '[' :: (u ++ [']'])) (.one (.index target position))
  | member {t w : List Char} {target : Form} {field : String} (htarget : Layout t (.one target))
      (hrank : target.rank ≤ 0) (hw : Blank w) (hfield : IsName field) :
      Layout (t ++ '.' :: (w ++ field.toList)) (.one (.member target field))
  | call {word : String} {w t : List Char} {args : List Form} (hword : IsName word) (hw : Blank w)
      (h : Layout t (.items args)) :
      Layout (word.toList ++ (w ++ '(' :: (t ++ [')']))) (.one (.call word args))
  | unary (op : UnaryOp) {t : List Char} {operand : Form} (h : Layout t (.one operand))
      (hrank : operand.rank ≤ 1) : Layout (op.symbol.toList ++ t) (.one (.unary op operand))
  | binary (op : BinaryOp) {t u : List Char} {lhs rhs : Form} (hlhs : Layout t (.one lhs))
      (hrank : lhs.rank ≤ 2) (hrhs : Layout u (.one rhs)) (hrank' : rhs.rank ≤ 2) :
      Layout (t ++ (op.symbol.toList ++ u)) (.one (.binary op lhs rhs))
  | cond {t u v : List Char} {test yes no : Form} (htest : Layout t (.one test))
      (hrank : test.rank ≤ 2) (hyes : Layout u (.one yes)) (hno : Layout v (.one no)) :
      Layout (t ++ '?' :: (u ++ ':' :: v)) (.one (.cond test yes no))
  | none : Layout [] (.items [])
  | some {t u : List Char} {form : Form} {forms : List Form} (h : Layout t (.one form))
      (hmore : Layout u (.more forms)) : Layout (t ++ u) (.items (form :: forms))
  | noMore : Layout [] (.more [])
  | next {t u : List Char} {form : Form} {forms : List Form} (h : Layout t (.one form))
      (hmore : Layout u (.more forms)) : Layout (',' :: (t ++ u)) (.more (form :: forms))

variable {α β ε : Type} {s t u w rest : List Char} {nested : Rule Expr} {e : Expr} {k : Nat}

/-! ## Tokens -/

theorem exists_of_bind {x : Except ε α} {f : α → Except ε β} {b : β} (h : x >>= f = .ok b) :
    ∃ a, x = .ok a ∧ f a = .ok b := by
  cases x with
  | error error => cases h
  | ok a => exact ⟨a, rfl, h⟩

theorem blank_skipSpaces (s : List Char) : ∃ w, Blank w ∧ s = w ++ skipSpaces s :=
  ⟨s.takeWhile isSpace, List.all_eq_true.1 List.all_takeWhile, List.takeWhile_append_dropWhile.symm⟩

theorem exists_of_spaced {rule : Rule α} {a : α} (h : spaced rule s = .ok (a, rest)) :
    ∃ w w' before after, Blank w ∧ Blank w' ∧ s = w ++ before ∧ rule before = .ok (a, after) ∧
      after = w' ++ rest := by
  obtain ⟨⟨b, after⟩, hrule, hlast⟩ := exists_of_bind h
  obtain ⟨rfl, rfl⟩ := Prod.mk.inj (Except.ok.inj hlast)
  obtain ⟨w, hw, hs⟩ := blank_skipSpaces s
  obtain ⟨w', hw', hafter⟩ := blank_skipSpaces after
  exact ⟨w, w', _, after, hw, hw', hs, hrule, hafter⟩

theorem exists_of_symbol {word : String} {a : Unit} (h : symbol word s = .ok (a, rest)) :
    ∃ w w', Blank w ∧ Blank w' ∧ s = w ++ (word.toList ++ (w' ++ rest)) := by
  obtain ⟨w, w', before, after, hw, hw', rfl, htoken, rfl⟩ := exists_of_spaced h
  exact ⟨w, w', hw, hw', by rw [eq_append_of_token htoken]⟩

theorem cases_of_either {first second : Rule α} {result : α × List Char}
    (h : either first second s = .ok result) : first s = .ok result ∨ second s = .ok result := by
  unfold either at h
  split at h
  · next hfirst => exact .inl (hfirst.trans h)
  · exact .inr h

theorem exists_of_name {word : String} (h : name s = .ok (word, rest)) :
    IsName word ∧ s = word.toList ++ rest := by
  unfold name at h
  cases s with
  | nil => cases h
  | cons c more =>
      dsimp only at h
      split at h
      · next hstart =>
        obtain ⟨rfl, rfl⟩ := Prod.mk.inj (Except.ok.inj h)
        rw [String.toList_ofList]
        refine ⟨⟨c, more.takeWhile isNamePart, String.toList_ofList, hstart,
          List.all_eq_true.1 List.all_takeWhile⟩, ?_⟩
        rw [List.cons_append, List.takeWhile_append_dropWhile]
      · cases h

/-! ## Constants -/

theorem isNamePart_of_isHexDigit {c : Char} (h : Text.isHexDigit c = true) :
    isNamePart c = true := by
  have halpha : 'a' ≤ c ∧ c ≤ 'z' ∨ 'A' ≤ c ∧ c ≤ 'Z' → isNamePart c = true := by
    intro hletter
    unfold isNamePart Char.isAlphanum Char.isAlpha Char.isUpper Char.isLower
    simp only [Bool.or_eq_true, Bool.and_eq_true, decide_eq_true_eq]
    exact .inl (.inl hletter.symm)
  unfold Text.isHexDigit Text.digitValue? at h
  dsimp only at h
  split at h
  · next hdigit =>
    refine isNamePart_of_isDigit ?_
    unfold Text.isDigit
    simpa using hdigit
  · split at h
    · next hlower => exact halpha (.inl ⟨hlower.1, Char.le_trans hlower.2 (by decide)⟩)
    · split at h
      · next hupper => exact halpha (.inr ⟨hupper.1, Char.le_trans hupper.2 (by decide)⟩)
      · cases h

theorem exists_of_hexNumber {value : Value} (h : hexNumber s = .ok (value, rest)) :
    ∃ t, s = t ++ rest ∧ Constant t value := by
  obtain ⟨⟨_, more⟩, htoken, h⟩ := exists_of_bind h
  dsimp only at h
  have hprefix : ∃ x, (x = 'x' ∨ x = 'X') ∧ s = '0' :: x :: more := by
    rcases cases_of_either htoken with hlower | hupper
    · exact ⟨'x', .inl rfl, eq_append_of_token hlower⟩
    · exact ⟨'X', .inr rfl, eq_append_of_token hupper⟩
  obtain ⟨x, hx, rfl⟩ := hprefix
  split at h
  · next n _ =>
    split at h
    · cases h
    · obtain ⟨rfl, rfl⟩ := Prod.mk.inj (Except.ok.inj h)
      refine ⟨'0' :: x :: more.takeWhile Text.isHexDigit, ?_, .whole n ?_⟩
      · rw [List.cons_append, List.cons_append, List.takeWhile_append_dropWhile]
      · simp only [List.forall_mem_cons]
        refine ⟨rfl, by rcases hx with rfl | rfl <;> rfl, fun c hc => ?_⟩
        exact isNamePart_of_isHexDigit (List.all_eq_true.1 List.all_takeWhile c hc)
  · cases h

theorem exists_of_decimalNumber {value : Value} (h : decimalNumber s = .ok (value, rest)) :
    ∃ t, s = t ++ rest ∧ Constant t value := by
  have hsplit : s.takeWhile Text.isDigit ++ s.dropWhile Text.isDigit = s :=
    List.takeWhile_append_dropWhile
  have hdigits : ∀ (r : List Char), ∀ c ∈ r.takeWhile Text.isDigit, isNamePart c = true :=
    fun r c hc => isNamePart_of_isDigit (List.all_eq_true.1 List.all_takeWhile c hc)
  have hwhole : (if Text.ofDecimalDigits (s.takeWhile Text.isDigit) < Word.half then
      Except.ok (Value.nat (Text.ofDecimalDigits (s.takeWhile Text.isDigit)),
        s.dropWhile Text.isDigit) else .error s) = .ok (value, rest) →
      ∃ t, s = t ++ rest ∧ Constant t value := by
    intro h
    split at h
    · obtain ⟨rfl, rfl⟩ := Prod.mk.inj (Except.ok.inj h)
      exact ⟨_, hsplit.symm, .whole _ (hdigits s)⟩
    · cases h
  unfold decimalNumber at h
  dsimp only at h
  split at h
  · cases h
  · split at h
    · next r hpoint =>
      split at h
      · exact hwhole h
      · split at h
        · next hfinite =>
          obtain ⟨rfl, rfl⟩ := Prod.mk.inj (Except.ok.inj h)
          have hfraction :=
            List.prefix_iff_eq_append.1 (List.takeWhile_prefix (l := r) Text.isDigit)
          rw [hpoint] at hsplit ⊢
          refine ⟨s.takeWhile Text.isDigit ++ '.' :: r.takeWhile Text.isDigit, ?_,
            .fraction ?_ hfinite⟩
          · rw [List.append_assoc, List.cons_append, List.drop_succ_cons, hfraction, hsplit]
          · intro c hc
            rcases List.mem_append.1 hc with hfirst | hlast
            · exact .inl (hdigits s c hfirst)
            · rcases List.mem_cons.1 hlast with rfl | hlast
              · exact .inr rfl
              · exact .inl (hdigits r c hlast)
        · cases h
    · exact hwhole h

theorem enclosed_of_quotedFrom {quote : Quote} {acc : List Char} {text : String}
    (h : quotedFrom quote.char acc s = some (text, rest)) :
    ∃ t, s = t ++ quote.char :: rest ∧ Enclosed quote t := by
  fun_induction quotedFrom quote.char acc s with
  | case1 => cases h
  | case2 acc rest =>
      cases h
      exact ⟨[], rfl, .nil⟩
  | case3 => cases h
  | case4 acc c rest plain hslash ih =>
      obtain ⟨t, rfl, ht⟩ := ih h
      exact ⟨_, rfl, .escape ht⟩
  | case5 acc c rest hquote hslash ih =>
      obtain ⟨t, rfl, ht⟩ := ih h
      exact ⟨c :: t, rfl, .plain hquote hslash ht⟩

theorem exists_of_quoted {value : Value} (h : quoted s = .ok (value, rest)) :
    ∃ t, s = t ++ rest ∧ Constant t value := by
  unfold quoted at h
  cases s with
  | nil => cases h
  | cons c more =>
      dsimp only at h
      split at h
      · next hquote =>
        have hmark : ∃ quote : Quote, c = quote.char := by
          rcases hquote with rfl | rfl
          · exact ⟨.double, rfl⟩
          · exact ⟨.single, rfl⟩
        obtain ⟨quote, rfl⟩ := hmark
        split at h
        · next text after hread =>
          obtain ⟨rfl, rfl⟩ := Prod.mk.inj (Except.ok.inj h)
          obtain ⟨t, rfl, ht⟩ := enclosed_of_quotedFrom hread
          refine ⟨quote.char :: (t ++ [quote.char]), ?_, .quoted text ht⟩
          rw [List.cons_append, List.append_assoc, List.singleton_append]
        · cases h
      · cases h

/-! ## Rules -/

/-- Whatever the rule reads is the layout of a form of that rank at most. -/
def Lays (k : Nat) (rule : Rule Expr) : Prop :=
  ∀ ⦃s e rest⦄, rule s = .ok (e, rest) →
    ∃ t form, s = t ++ rest ∧ Layout t (.one form) ∧ form.expr = e ∧ form.rank ≤ k

theorem Lays.mono {k l : Nat} {rule : Rule Expr} (h : Lays k rule) (hle : k ≤ l) :
    Lays l rule := by
  intro s e rest hread
  obtain ⟨t, form, hs, ht, hexpr, hrank⟩ := h hread
  exact ⟨t, form, hs, ht, hexpr, Nat.le_trans hrank hle⟩

theorem Lays.either {first second : Rule Expr} (h : Lays k first) (hsecond : Lays k second) :
    Lays k (either first second) := by
  intro s e rest hread
  rcases cases_of_either hread with hread | hread
  · exact h hread
  · exact hsecond hread

theorem Lays.spaced {rule : Rule Expr} (h : Lays k rule) : Lays k (spaced rule) := by
  intro s e rest hread
  obtain ⟨w, w', before, after, hw, hw', rfl, hrule, rfl⟩ := exists_of_spaced hread
  obtain ⟨t, form, rfl, ht, hexpr, hrank⟩ := h hrule
  refine ⟨w ++ (t ++ w'), form, ?_, .blankLeft hw (.blankRight ht hw'), hexpr, hrank⟩
  simp only [List.append_assoc]

theorem lays_literal {rule : Rule Value}
    (hrule : ∀ {s rest value}, rule s = .ok (value, rest) → ∃ t, s = t ++ rest ∧ Constant t value) :
    Lays 0 (literal rule) := by
  intro s e rest h
  unfold literal at h
  cases hread : rule s with
  | error stop =>
      rw [hread] at h
      cases h
  | ok result =>
      obtain ⟨value, after⟩ := result
      rw [hread] at h
      obtain ⟨rfl, rfl⟩ := Prod.mk.inj (Except.ok.inj h)
      obtain ⟨t, hs, ht⟩ := hrule hread
      exact ⟨t, .constant value, hs, .constant ht, by rw [Form.expr], Nat.le_refl 0⟩

theorem layout_moreItems (h : Lays k nested) {rounds : Nat} {es : List Expr}
    (hread : moreItems nested rounds s = (es, rest)) :
    ∃ t forms, s = t ++ rest ∧ Layout t (.more forms) ∧ Form.exprs forms = es := by
  induction rounds generalizing s es with
  | zero =>
      obtain ⟨rfl, rfl⟩ := Prod.mk.inj hread
      exact ⟨[], [], rfl, .noMore, by rw [Form.exprs]⟩
  | succ rounds ih =>
      rw [moreItems] at hread
      split at hread
      · obtain ⟨rfl, rfl⟩ := Prod.mk.inj hread
        exact ⟨[], [], rfl, .noMore, by rw [Form.exprs]⟩
      · next after hcomma =>
        split at hread
        · obtain ⟨rfl, rfl⟩ := Prod.mk.inj hread
          exact ⟨[], [], rfl, .noMore, by rw [Form.exprs]⟩
        · next item behind hitem =>
          cases hmore : moreItems nested rounds behind with
          | mk others last =>
            rw [hmore] at hread
            obtain ⟨rfl, rfl⟩ := Prod.mk.inj hread
            obtain ⟨w, w', hw, hw', rfl⟩ := exists_of_symbol hcomma
            obtain ⟨t, form, rfl, ht, rfl, _⟩ := h hitem
            obtain ⟨u, forms, rfl, hu, rfl⟩ := ih hmore
            refine ⟨w ++ ',' :: ((w' ++ t) ++ u), form :: forms, ?_,
              .blankLeft hw (.next (.blankLeft hw' ht) hu), by rw [Form.exprs]⟩
            simp only [List.append_assoc, List.cons_append]
            rfl

theorem layout_items (h : Lays k nested) {es : List Expr} (hread : items nested s = (es, rest)) :
    ∃ t forms, s = t ++ rest ∧ Layout t (.items forms) ∧ Form.exprs forms = es := by
  unfold items at hread
  split at hread
  · obtain ⟨rfl, rfl⟩ := Prod.mk.inj hread
    exact ⟨[], [], rfl, .none, by rw [Form.exprs]⟩
  · next item behind hitem =>
    cases hmore : moreItems nested behind.length behind with
    | mk others last =>
      rw [hmore] at hread
      obtain ⟨rfl, rfl⟩ := Prod.mk.inj hread
      obtain ⟨t, form, rfl, ht, rfl, _⟩ := h hitem
      obtain ⟨u, forms, rfl, hu, rfl⟩ := layout_moreItems h hmore
      exact ⟨t ++ u, form :: forms, (List.append_assoc t u _).symm, .some ht hu, by rw [Form.exprs]⟩

theorem lays_listLiteral (h : Lays k nested) : Lays 0 (listLiteral nested) := by
  intro s e rest hread
  obtain ⟨⟨_, before⟩, hopen, hread⟩ := exists_of_bind hread
  cases hitems : items nested before with
  | mk members after =>
    simp only [hitems] at hread
    obtain ⟨⟨_, behind⟩, hclose, hlast⟩ := exists_of_bind hread
    obtain ⟨rfl, rfl⟩ := Prod.mk.inj (Except.ok.inj hlast)
    obtain ⟨t, forms, rfl, ht, rfl⟩ := layout_items h hitems
    obtain ⟨w, w', hw, hw', rfl⟩ := exists_of_symbol hclose
    refine ⟨'[' :: ((t ++ w) ++ [']']) ++ w', .list forms, ?_,
      .blankRight (.list (.blankRight ht hw)) hw', by rw [Form.expr], Nat.le_refl 0⟩
    rw [eq_append_of_token hopen]
    simp only [List.append_assoc, List.cons_append]
    rfl

theorem lays_parenthesised (h : Lays k nested) : Lays 0 (parenthesised nested) := by
  intro s e rest hread
  obtain ⟨⟨_, before⟩, hopen, hread⟩ := exists_of_bind hread
  obtain ⟨⟨inner, after⟩, hinner, hread⟩ := exists_of_bind hread
  obtain ⟨⟨_, behind⟩, hclose, hlast⟩ := exists_of_bind hread
  obtain ⟨rfl, rfl⟩ := Prod.mk.inj (Except.ok.inj hlast)
  obtain ⟨t, form, rfl, ht, rfl, _⟩ := h hinner
  obtain ⟨w, w', hw, hw', rfl⟩ := exists_of_symbol hclose
  refine ⟨'(' :: ((t ++ w) ++ [')']) ++ w', .paren form, ?_,
    .blankRight (.paren (.blankRight ht hw)) hw', by rw [Form.expr], Nat.le_refl 0⟩
  rw [eq_append_of_token hopen]
  simp only [List.append_assoc, List.cons_append]
  rfl

theorem layout_arguments (h : Lays k nested) {args : List Expr}
    (hread : arguments nested s = .ok (args, rest)) :
    ∃ w t w' forms, Blank w ∧ Blank w' ∧ s = w ++ '(' :: (t ++ ')' :: (w' ++ rest)) ∧
      Layout t (.items forms) ∧ Form.exprs forms = args := by
  obtain ⟨⟨_, before⟩, hopen, hread⟩ := exists_of_bind hread
  cases hitems : items nested before with
  | mk members after =>
    simp only [hitems] at hread
    obtain ⟨⟨_, behind⟩, hclose, hlast⟩ := exists_of_bind hread
    obtain ⟨rfl, rfl⟩ := Prod.mk.inj (Except.ok.inj hlast)
    obtain ⟨t, forms, rfl, ht, rfl⟩ := layout_items h hitems
    obtain ⟨w, w', hw, hw', rfl⟩ := exists_of_symbol hopen
    obtain ⟨v, v', hv, hv', rfl⟩ := exists_of_symbol hclose
    refine ⟨w, w' ++ (t ++ v), v', forms, hw, hv', ?_, .blankLeft hw' (.blankRight ht hv), rfl⟩
    simp only [List.append_assoc]
    rfl

theorem lays_named (h : Lays k nested) : Lays 0 (named nested) := by
  intro s e rest hnamed
  obtain ⟨⟨word, after⟩, hname, hread⟩ := exists_of_bind hnamed
  obtain ⟨hword, rfl⟩ := exists_of_name hname
  dsimp only at hread
  have hkeyword : ∀ {value : Value}, (word, value) ∈ keywords →
      (.ok (.lit value, after) : Except (List Char) (Expr × List Char)) = .ok (e, rest) →
      ∃ t form, word.toList ++ after = t ++ rest ∧ Layout t (.one form) ∧ form.expr = e ∧
        form.rank ≤ 0 := by
    intro value hmem hsame
    obtain ⟨rfl, rfl⟩ := Prod.mk.inj (Except.ok.inj hsame)
    exact ⟨_, .constant value, rfl, .constant (.keyword hmem), by rw [Form.expr], Nat.le_refl 0⟩
  split at hread
  · next hsame => exact hkeyword (hsame ▸ .head _) hread
  · split at hread
    · next hsame => exact hkeyword (hsame ▸ .tail _ (.head _)) hread
    · split at hread
      · next hsame => exact hkeyword (hsame ▸ .tail _ (.tail _ (.head _))) hread
      · split at hread
        · next args behind hargs =>
          obtain ⟨rfl, rfl⟩ := Prod.mk.inj (Except.ok.inj hread)
          obtain ⟨w, t, w', forms, hw, hw', rfl, ht, rfl⟩ := layout_arguments h hargs
          refine ⟨word.toList ++ (w ++ '(' :: (t ++ [')'])) ++ w', .call word forms, ?_,
            .blankRight (.call hword hw ht) hw', by rw [Form.expr], Nat.le_refl 0⟩
          simp only [List.append_assoc, List.cons_append]
          rfl
        · obtain ⟨rfl, rfl⟩ := Prod.mk.inj (Except.ok.inj hread)
          exact ⟨_, .ident word, rfl, .ident hword, by rw [Form.expr], Nat.le_refl 0⟩

theorem lays_primary (h : Lays k nested) : Lays 0 (primary nested) :=
  .spaced <| (lays_literal exists_of_hexNumber).either <|
    (lays_literal exists_of_decimalNumber).either <| (lays_literal exists_of_quoted).either <|
      (lays_listLiteral h).either <| (lays_parenthesised h).either (lays_named h)

/-- A suffix makes the layout of a form longer. -/
theorem layout_suffix (h : Lays k nested) {target : Form} (ht : Layout t (.one target))
    (hrank : target.rank ≤ 0)
    (hread : either (indexSuffix nested target.expr) (memberSuffix target.expr) s = .ok (e, rest)) :
    ∃ u form, s = u ++ rest ∧ Layout (t ++ u) (.one form) ∧ form.expr = e ∧ form.rank ≤ 0 := by
  rcases cases_of_either hread with hread | hread
  · obtain ⟨⟨_, before⟩, hopen, hread⟩ := exists_of_bind hread
    obtain ⟨⟨position, after⟩, hposition, hread⟩ := exists_of_bind hread
    obtain ⟨⟨_, behind⟩, hclose, hlast⟩ := exists_of_bind hread
    obtain ⟨rfl, rfl⟩ := Prod.mk.inj (Except.ok.inj hlast)
    obtain ⟨w, w', hw, hw', rfl⟩ := exists_of_symbol hopen
    obtain ⟨u, form, rfl, hu, rfl, _⟩ := h hposition
    obtain ⟨v, v', hv, hv', rfl⟩ := exists_of_symbol hclose
    refine ⟨w ++ '[' :: ((w' ++ (u ++ v)) ++ [']']) ++ v', .index target form, ?_, ?_,
      by rw [Form.expr], Nat.le_refl 0⟩
    · simp only [List.append_assoc, List.cons_append]
      rfl
    · have hindex := (Layout.index (ht.blankRight hw) hrank
        (.blankLeft hw' (hu.blankRight hv))).blankRight hv'
      simpa only [List.append_assoc] using hindex
  · obtain ⟨⟨_, before⟩, hopen, hread⟩ := exists_of_bind hread
    obtain ⟨⟨field, after⟩, hname, hlast⟩ := exists_of_bind hread
    obtain ⟨rfl, rfl⟩ := Prod.mk.inj (Except.ok.inj hlast)
    obtain ⟨w, w', hw, hw', rfl⟩ := exists_of_symbol hopen
    obtain ⟨hfield, rfl⟩ := exists_of_name hname
    refine ⟨w ++ '.' :: (w' ++ field.toList), .member target field, ?_, ?_,
      by rw [Form.expr], Nat.le_refl 0⟩
    · simp only [List.append_assoc, List.cons_append]
      rfl
    · have hmember := Layout.member (ht.blankRight hw) hrank hw' hfield
      simpa only [List.append_assoc] using hmember

theorem layout_suffixes (h : Lays k nested) {rounds : Nat} {target : Form}
    (ht : Layout t (.one target)) (hrank : target.rank ≤ 0)
    (hread : suffixes nested rounds target.expr s = (e, rest)) :
    ∃ u form, s = u ++ rest ∧ Layout (t ++ u) (.one form) ∧ form.expr = e ∧ form.rank ≤ 0 := by
  have hnone : (target.expr, s) = (e, rest) →
      ∃ u form, s = u ++ rest ∧ Layout (t ++ u) (.one form) ∧ form.expr = e ∧ form.rank ≤ 0 := by
    intro hsame
    obtain ⟨rfl, rfl⟩ := Prod.mk.inj hsame
    exact ⟨[], target, rfl, by rwa [List.append_nil], rfl, hrank⟩
  induction rounds generalizing t s target with
  | zero => exact hnone hread
  | succ rounds ih =>
      rw [suffixes] at hread
      split at hread
      · exact hnone hread
      · next longer after hsuffix =>
        obtain ⟨u, form, rfl, hu, rfl, hrank'⟩ := layout_suffix h ht hrank hsuffix
        obtain ⟨v, last, rfl, hv, hexpr, hlast⟩ := ih hu hrank' hread (by
          intro hsame
          obtain ⟨rfl, rfl⟩ := Prod.mk.inj hsame
          exact ⟨[], form, rfl, by rwa [List.append_nil], rfl, hrank'⟩)
        refine ⟨u ++ v, last, (List.append_assoc u v _).symm, ?_, hexpr, hlast⟩
        rwa [← List.append_assoc]

theorem lays_suffixed (h : Lays k nested) : Lays 0 (suffixed nested) := by
  intro s e rest hread
  obtain ⟨⟨target, after⟩, hprimary, hlast⟩ := exists_of_bind hread
  obtain ⟨t, form, rfl, ht, rfl, hrank⟩ := lays_primary h hprimary
  obtain ⟨u, longer, rfl, hu, hexpr, hrank'⟩ := layout_suffixes h ht hrank (Except.ok.inj hlast)
  exact ⟨t ++ u, longer, (List.append_assoc t u _).symm, hu, hexpr, hrank'⟩

/-! ## Operators -/

theorem lays_applied (op : UnaryOp) {operand : Rule Expr} (h : Lays 1 operand) :
    Lays 1 (applied op operand) := by
  intro s e rest hread
  obtain ⟨⟨_, before⟩, hsymbol, hread⟩ := exists_of_bind hread
  obtain ⟨⟨inner, after⟩, hoperand, hlast⟩ := exists_of_bind hread
  obtain ⟨rfl, rfl⟩ := Prod.mk.inj (Except.ok.inj hlast)
  obtain ⟨w, w', hw, hw', rfl⟩ := exists_of_symbol hsymbol
  obtain ⟨t, form, rfl, ht, rfl, hrank⟩ := h hoperand
  refine ⟨w ++ (op.symbol.toList ++ (w' ++ t)), .unary op form, ?_,
    .blankLeft hw (.unary op (.blankLeft hw' ht) hrank), by rw [Form.expr], Nat.le_refl 1⟩
  simp only [List.append_assoc]

theorem lays_unaryFrom (h : Lays k nested) (rounds : Nat) : Lays 1 (unaryFrom nested rounds) := by
  induction rounds with
  | zero => exact (lays_suffixed h).mono (Nat.zero_le 1)
  | succ rounds ih =>
      exact (lays_applied .not ih).either <| (lays_applied .neg ih).either <|
        (lays_applied .bitNot ih).either <| (lays_suffixed h).mono (Nat.zero_le 1)

theorem lays_unary (h : Lays k nested) : Lays 1 (unary nested) :=
  fun s _ _ hread => lays_unaryFrom h s.length hread

/-- The rule reads the symbol of an operator. -/
def ReadsSymbol (rule : Rule BinaryOp) : Prop :=
  ∀ ⦃s op rest⦄, rule s = .ok (op, rest) → s = op.symbol.toList ++ rest

theorem ReadsSymbol.either {first second : Rule BinaryOp} (h : ReadsSymbol first)
    (hsecond : ReadsSymbol second) : ReadsSymbol (either first second) := by
  intro s op rest hread
  rcases cases_of_either hread with hread | hread
  · exact h hread
  · exact hsecond hread

theorem readsSymbol_of {rule : Rule Unit} {o : BinaryOp}
    (h : ∀ {s rest u}, rule s = .ok (u, rest) → s = o.symbol.toList ++ rest) :
    ReadsSymbol fun s => (rule s).map fun (_, r) => (o, r) := by
  intro s op rest hread
  dsimp only at hread
  cases hrule : rule s with
  | error stop =>
      rw [hrule] at hread
      cases hread
  | ok result =>
      rw [hrule] at hread
      obtain ⟨rfl, rfl⟩ := Prod.mk.inj (Except.ok.inj hread)
      exact h hrule

theorem readsSymbol_token (o : BinaryOp) :
    ReadsSymbol fun s => (token o.symbol s).map fun (_, r) => (o, r) :=
  readsSymbol_of eq_append_of_token

theorem readsSymbol_lone {c : Char} {o : BinaryOp} (hc : o.symbol.toList = [c]) :
    ReadsSymbol fun s => (lone c s).map fun (_, r) => (o, r) := by
  refine readsSymbol_of fun {s rest u} hlone => ?_
  unfold lone at hlone
  split at hlone
  · split at hlone
    · next heq =>
      obtain ⟨_, rfl⟩ := Prod.mk.inj (Except.ok.inj hlone)
      rw [hc, heq.1]
      rfl
    · cases hlone
  · cases hlone

theorem exists_of_levels {operator : Rule BinaryOp} (hmem : operator ∈ levels) :
    ∃ rule, operator = spaced rule ∧ ReadsSymbol rule := by
  simp only [levels, List.mem_cons, List.not_mem_nil, or_false] at hmem
  rcases hmem with rfl | rfl | rfl | rfl | rfl | rfl | rfl | rfl | rfl | rfl
  · exact ⟨_, rfl, readsSymbol_token .or⟩
  · exact ⟨_, rfl, readsSymbol_token .and⟩
  · exact ⟨_, rfl, readsSymbol_lone (o := .bitOr) rfl⟩
  · exact ⟨_, rfl, readsSymbol_token .bitXor⟩
  · exact ⟨_, rfl, readsSymbol_lone (o := .bitAnd) rfl⟩
  · exact ⟨_, rfl, (readsSymbol_token .eq).either (readsSymbol_token .ne)⟩
  · exact ⟨_, rfl, (readsSymbol_token .le).either <| (readsSymbol_token .ge).either <|
      (readsSymbol_lone (o := .lt) rfl).either (readsSymbol_lone (o := .gt) rfl)⟩
  · exact ⟨_, rfl, (readsSymbol_token .shl).either (readsSymbol_token .shr)⟩
  · exact ⟨_, rfl, (readsSymbol_token .add).either (readsSymbol_token .sub)⟩
  · exact ⟨_, rfl, (readsSymbol_token .mul).either <|
      (readsSymbol_token .div).either (readsSymbol_token .rem)⟩

/-- What an operator between operands reads is its symbol, with blanks around. -/
theorem exists_of_operator {operator : Rule BinaryOp} (hmem : operator ∈ levels) {op : BinaryOp}
    (hread : operator s = .ok (op, rest)) :
    ∃ w w', Blank w ∧ Blank w' ∧ s = w ++ (op.symbol.toList ++ (w' ++ rest)) := by
  obtain ⟨rule, rfl, hrule⟩ := exists_of_levels hmem
  obtain ⟨w, w', before, after, hw, hw', rfl, hsymbol, rfl⟩ := exists_of_spaced hread
  exact ⟨w, w', hw, hw', by rw [hrule hsymbol]⟩

theorem layout_operations {operand : Rule Expr} (h : Lays 2 operand) {operator : Rule BinaryOp}
    (hmem : operator ∈ levels) {rounds : Nat} {lhs : Form} (ht : Layout t (.one lhs))
    (hrank : lhs.rank ≤ 2) (hread : operations operand operator rounds lhs.expr s = .ok (e, rest)) :
    ∃ u form, s = u ++ rest ∧ Layout (t ++ u) (.one form) ∧ form.expr = e ∧ form.rank ≤ 2 := by
  induction rounds generalizing t s lhs with
  | zero =>
      obtain ⟨rfl, rfl⟩ := Prod.mk.inj (Except.ok.inj hread)
      exact ⟨[], lhs, rfl, by rwa [List.append_nil], rfl, hrank⟩
  | succ rounds ih =>
      rw [operations] at hread
      split at hread
      · obtain ⟨rfl, rfl⟩ := Prod.mk.inj (Except.ok.inj hread)
        exact ⟨[], lhs, rfl, by rwa [List.append_nil], rfl, hrank⟩
      · next op before hoperator =>
        obtain ⟨⟨right, after⟩, hoperand, hread⟩ := exists_of_bind hread
        obtain ⟨w, w', hw, hw', rfl⟩ := exists_of_operator hmem hoperator
        obtain ⟨u, rhs, rfl, hu, rfl, hrank'⟩ := h hoperand
        have hbinary : Layout (t ++ (w ++ (op.symbol.toList ++ (w' ++ u))))
            (.one (.binary op lhs rhs)) := by
          have hboth := Layout.binary op (ht.blankRight hw) hrank (.blankLeft hw' hu) hrank'
          rwa [List.append_assoc] at hboth
        obtain ⟨v, last, rfl, hv, hexpr, hlast⟩ := ih hbinary (Nat.le_refl 2) hread
        refine ⟨w ++ (op.symbol.toList ++ (w' ++ u)) ++ v, last, ?_, ?_, hexpr, hlast⟩
        · simp only [List.append_assoc]
        · rwa [← List.append_assoc]

theorem lays_binaryFrom {operand : Rule Expr} (h : Lays 2 operand)
    {operators : List (Rule BinaryOp)} (hlevels : ∀ operator ∈ operators, operator ∈ levels) :
    Lays 2 (binaryFrom operand operators) := by
  induction operators with
  | nil => exact h
  | cons operator tighter ih =>
      obtain ⟨hmem, htighter⟩ := List.forall_mem_cons.1 hlevels
      intro s e rest hread
      obtain ⟨⟨left, after⟩, hleft, hread⟩ := exists_of_bind hread
      obtain ⟨t, lhs, rfl, ht, rfl, hrank⟩ := ih htighter hleft
      obtain ⟨u, form, rfl, hu, hexpr, hrank'⟩ :=
        layout_operations (ih htighter) hmem ht hrank hread
      exact ⟨t ++ u, form, (List.append_assoc t u _).symm, hu, hexpr, hrank'⟩

/-! ## Expressions -/

theorem lays_conditional (h : Lays 3 nested) : Lays 3 (conditional nested) := by
  intro s e rest hread
  obtain ⟨⟨test, after⟩, htest, hread⟩ := exists_of_bind hread
  have hoperand : Lays 2 (unary nested) := (lays_unary h).mono (by decide)
  obtain ⟨t, form, rfl, ht, rfl, hrank⟩ := lays_binaryFrom hoperand (fun _ hmem => hmem) htest
  dsimp only at hread
  split at hread
  · next yes no last hbranches =>
    obtain ⟨rfl, rfl⟩ := Prod.mk.inj (Except.ok.inj hread)
    obtain ⟨⟨_, before⟩, hquestion, hbranches⟩ := exists_of_bind hbranches
    obtain ⟨⟨first, middle⟩, hyes, hbranches⟩ := exists_of_bind hbranches
    obtain ⟨⟨_, behind⟩, hcolon, hbranches⟩ := exists_of_bind hbranches
    obtain ⟨⟨second, final⟩, hno, hlast⟩ := exists_of_bind hbranches
    obtain ⟨hpair, rfl⟩ := Prod.mk.inj (Except.ok.inj hlast)
    obtain ⟨rfl, rfl⟩ := Prod.mk.inj hpair
    obtain ⟨w, w', hw, hw', rfl⟩ := exists_of_symbol hquestion
    obtain ⟨u, formYes, rfl, hu, rfl, _⟩ := h hyes
    obtain ⟨x, x', hx, hx', rfl⟩ := exists_of_symbol hcolon
    obtain ⟨v, formNo, rfl, hv, rfl, _⟩ := h hno
    refine ⟨(t ++ w) ++ '?' :: ((w' ++ (u ++ x)) ++ ':' :: (x' ++ v)),
      .cond form formYes formNo, ?_,
      .cond (ht.blankRight hw) hrank (.blankLeft hw' (hu.blankRight hx)) (.blankLeft hx' hv),
      by rw [Form.expr], Nat.le_refl 3⟩
    simp only [List.append_assoc, List.cons_append]
    rfl
  · obtain ⟨rfl, rfl⟩ := Prod.mk.inj (Except.ok.inj hread)
    exact ⟨t, form, rfl, ht, rfl, Nat.le_succ_of_le hrank⟩

theorem lays_expression (depth : Nat) : Lays 3 (expression depth) := by
  induction depth with
  | zero => exact fun _ _ _ hread => nomatch hread
  | succ depth ih => exact lays_conditional ih

theorem exists_of_skipReturn (s : List Char) :
    ∃ before, (∀ c ∈ before, isSpace c = true ∨ isNamePart c = true) ∧
      s = before ++ skipReturn s := by
  obtain ⟨w, hw, hs⟩ := blank_skipSpaces s
  have hplain : ∃ before, (∀ c ∈ before, isSpace c = true ∨ isNamePart c = true) ∧
      s = before ++ skipSpaces s := ⟨w, fun c hc => .inl (hw c hc), hs⟩
  unfold skipReturn
  split
  · next c rest htoken =>
    split
    · next hspace =>
      obtain ⟨w', hw', hrest⟩ := blank_skipSpaces rest
      refine ⟨w ++ ("return".toList ++ c :: w'), ?_, ?_⟩
      · intro d hd
        rcases List.mem_append.1 hd with hd | hd
        · exact .inl (hw d hd)
        · rcases List.mem_append.1 hd with hd | hd
          · exact .inr (List.all_eq_true.1 (by rfl : "return".toList.all isNamePart = true) d hd)
          · rcases List.mem_cons.1 hd with rfl | hd
            · exact .inl hspace
            · exact .inl (hw' d hd)
      · rw [eq_append_of_token htoken] at hs
        refine hs.trans ?_
        simp only [List.append_assoc, List.cons_append]
        rw [← hrest]
    · exact hplain
  · exact hplain

theorem blank_of_skipSpaces (h : skipSpaces s = []) : Blank s := by
  obtain ⟨w, hw, hs⟩ := blank_skipSpaces s
  rw [h, List.append_nil] at hs
  rwa [hs]

theorem mem_of_skipEnd (h : skipEnd s = []) : ∀ c ∈ s, isSpace c = true ∨ c = ';' := by
  unfold skipEnd at h
  split at h
  · next rest hsymbol =>
    subst h
    obtain ⟨w, w', hw, hw', rfl⟩ := exists_of_symbol hsymbol
    intro c hc
    rcases List.mem_append.1 hc with hc | hc
    · exact .inl (hw c hc)
    · rcases List.mem_append.1 hc with hc | hc
      · exact .inr (List.mem_singleton.1 hc)
      · rw [List.append_nil] at hc
        exact .inl (hw' c hc)
  · exact fun c hc => .inl (blank_of_skipSpaces h c hc)

/-- A source that is read is the layout of a form, between a word or blanks and a semicolon or
blanks. -/
theorem layout_of_program (h : program s = .ok e) :
    ∃ before t behind form, s = before ++ (t ++ behind) ∧
      (∀ c ∈ before, isSpace c = true ∨ isNamePart c = true) ∧
      (∀ c ∈ behind, isSpace c = true ∨ c = ';') ∧ Layout t (.one form) ∧ form.expr = e := by
  obtain ⟨⟨tree, after⟩, hexpression, hread⟩ := exists_of_bind h
  obtain ⟨before, hbefore, hs⟩ := exists_of_skipReturn s
  obtain ⟨t, form, hskip, ht, rfl, _⟩ := lays_expression _ hexpression
  dsimp only at hread
  split at hread
  · next hend =>
    obtain rfl := Except.ok.inj hread
    exact ⟨before, t, after, form, by rw [← hskip, ← hs], hbefore, mem_of_skipEnd hend, ht, rfl⟩
  · cases hread

end PanelBus.Expr.Grammar
