import PanelBus.Proofs.Expr.Layout
/-!
# Nesting of forms

The layout of a form shows how deep the form nests: in the brackets that are open at once, in the
question marks, and in the runs of leading operators.
-/

namespace PanelBus.Expr.Grammar

namespace Form

mutual

/-- The greatest weight on the way to a part of a form, where each pair of brackets, each leading
operator and each conditional on the way has its weight. -/
def weigh (bracket sign conditional : Nat) : Form → Nat
  | .constant _ | .ident _ => 0
  | .list members => bracket + weighAll bracket sign conditional members
  | .paren inner => bracket + weigh bracket sign conditional inner
  | .index target position =>
    max (weigh bracket sign conditional target) (bracket + weigh bracket sign conditional position)
  | .member target _ => weigh bracket sign conditional target
  | .call _ args => bracket + weighAll bracket sign conditional args
  | .unary _ operand => sign + weigh bracket sign conditional operand
  | .binary _ lhs rhs =>
    max (weigh bracket sign conditional lhs) (weigh bracket sign conditional rhs)
  | .cond test yes no =>
    conditional + max (weigh bracket sign conditional test)
      (max (weigh bracket sign conditional yes) (weigh bracket sign conditional no))

/-- The greatest weight in forms. -/
def weighAll (bracket sign conditional : Nat) : List Form → Nat
  | [] => 0
  | form :: rest =>
    max (weigh bracket sign conditional form) (weighAll bracket sign conditional rest)

end

/-- How deep brackets nest in a form. -/
def brackets (form : Form) : Nat := form.weigh 1 0 0

/-- How deep conditionals nest in a form. -/
def conditionals (form : Form) : Nat := form.weigh 0 0 1

/-- How deep brackets, leading operators and conditionals nest in a form, taken together. -/
def depth (form : Form) : Nat := form.weigh 1 1 1

/-- The number of leading operators before what is no such operator. -/
def chain : Form → Nat
  | .unary _ operand => operand.chain + 1
  | _ => 0

mutual

/-- The most leading operators in a row, anywhere in a form. -/
def signs : Form → Nat
  | .constant _ | .ident _ => 0
  | .list members => signsAll members
  | .paren inner => inner.signs
  | .index target position => max target.signs position.signs
  | .member target _ => target.signs
  | .call _ args => signsAll args
  | .unary _ operand => max (operand.chain + 1) operand.signs
  | .binary _ lhs rhs => max lhs.signs rhs.signs
  | .cond test yes no => max test.signs (max yes.signs no.signs)

/-- The most leading operators in a row, anywhere in forms. -/
def signsAll : List Form → Nat
  | [] => 0
  | form :: rest => max form.signs (signsAll rest)

end

theorem chain_of_rank {form : Form} (h : form.rank ≤ 0) : form.chain = 0 := by
  cases form with
  | unary op operand => cases h
  | _ => rfl

end Form

namespace Piece

/-- The greatest weight in a piece. -/
def weigh (bracket sign conditional : Nat) : Piece → Nat
  | .one form => form.weigh bracket sign conditional
  | .items forms | .more forms => Form.weighAll bracket sign conditional forms

section

variable (bracket sign conditional : Nat) (form : Form) (forms : List Form)

@[simp] theorem weigh_one :
    (one form).weigh bracket sign conditional = form.weigh bracket sign conditional := rfl

@[simp] theorem weigh_items :
    (items forms).weigh bracket sign conditional =
      Form.weighAll bracket sign conditional forms := rfl

@[simp] theorem weigh_more :
    (more forms).weigh bracket sign conditional =
      Form.weighAll bracket sign conditional forms := rfl

end

/-- The most leading operators in a row in a piece. -/
def signs : Piece → Nat
  | .one form => form.signs
  | .items forms | .more forms => Form.signsAll forms

/-- The number of leading operators with which a piece begins. -/
def chain : Piece → Nat
  | .one form => form.chain
  | _ => 0

end Piece

variable {s t w : List Char} {piece : Piece} {nesting : Nesting} {limit : Nat}

/-! ## Brackets -/

theorem plain_of {p : Char → Bool} {c : Char}
    (hp : ['(', '[', ')', ']', '"', '\x27'].any p = false) (h : p c = true) : Plain c := by
  intro hmem
  have hany := List.any_eq_true.2 ⟨c, hmem, h⟩
  rw [hp] at hany
  cases hany

theorem closes_blank (hw : Blank w) : Closes w 0 :=
  closes_plain fun c hc => plain_of rfl (hw c hc)

theorem closes_name {word : String} (h : IsName word) : Closes word.toList 0 := by
  obtain ⟨c, more, hchars, hstart, hmore⟩ := h
  rw [hchars]
  apply closes_plain
  rw [List.forall_mem_cons]
  exact ⟨plain_of rfl hstart, fun d hd => plain_of rfl (hmore d hd)⟩

theorem Constant.closes {value : Json.Value} (h : Constant t value) : Closes t 0 := by
  cases h with
  | keyword h => exact closes_name (isName_of_keyword h)
  | whole n h => exact closes_plain fun c hc => plain_of rfl (h c hc)
  | fraction h hfinite =>
      refine closes_plain fun c hc => ?_
      rcases h c hc with hpart | rfl
      · exact plain_of rfl hpart
      · decide
  | quoted s h => exact h.closes

theorem closes_unaryOp (op : UnaryOp) : Closes op.symbol.toList 0 := by
  cases op <;> exact closes_plain (forall_plain rfl)

theorem closes_binaryOp (op : BinaryOp) : Closes op.symbol.toList 0 := by
  cases op <;> exact closes_plain (forall_plain rfl)

theorem closes_mark {c : Char} (h : Plain c) {b : Nat} (ht : Closes t b) : Closes (c :: t) b := by
  have hmark : Closes [c] 0 := closes_plain (by simpa using h)
  simpa using hmark.append ht

/-- A layout closes the brackets that it opens, and as many are open in it at once as nest in the
form. -/
theorem Layout.closes (h : Layout t piece) : Closes t (piece.weigh 1 0 0) := by
  induction h with
  | blankLeft hw _ ih => simpa using (closes_blank hw).append ih
  | blankRight _ hw ih => simpa using ih.append (closes_blank hw)
  | constant h => simpa [Form.weigh] using h.closes
  | ident hword => simpa [Form.weigh] using closes_name hword
  | list _ ih =>
      have hlist := ih.bracketed '[' ']' (by decide) (by decide)
      simpa [Form.weigh, Nat.add_comm] using hlist
  | paren _ ih =>
      have hparen := ih.bracketed '(' ')' (by decide) (by decide)
      simpa [Form.weigh, Nat.add_comm] using hparen
  | index _ _ _ ihtarget ihposition =>
      have hposition := ihposition.bracketed '[' ']' (by decide) (by decide)
      simpa [Form.weigh, Nat.add_comm] using ihtarget.append hposition
  | member _ _ hw hfield ih =>
      have hname := closes_mark (c := '.') (by decide)
        ((closes_blank hw).append (closes_name hfield))
      simpa [Form.weigh] using ih.append hname
  | call hword hw _ ih =>
      have hargs := (closes_blank hw).append (ih.bracketed '(' ')' (by decide)
        (by decide))
      simpa [Form.weigh, Nat.add_comm] using (closes_name hword).append hargs
  | unary op _ _ ih => simpa [Form.weigh] using (closes_unaryOp op).append ih
  | binary op _ _ _ _ ihlhs ihrhs =>
      simpa [Form.weigh] using ihlhs.append ((closes_binaryOp op).append ihrhs)
  | cond _ _ _ _ ihtest ihyes ihno =>
      have hno := closes_mark (c := ':') (by decide) ihno
      have hbranches := closes_mark (c := '?') (by decide) (ihyes.append hno)
      simpa [Form.weigh] using ihtest.append hbranches
  | none | noMore => simpa [Form.weighAll] using closes_nil
  | some _ _ ih ihmore => simpa [Form.weighAll] using ih.append ihmore
  | next _ _ ih ihmore =>
      simpa [Form.weighAll] using closes_mark (c := ',') (by decide) (ih.append ihmore)

/-! ## Conditionals -/

/-- Conditionals nest no deeper in a form than its layout has question marks. -/
theorem Layout.conditionals_le (h : Layout t piece) : piece.weigh 0 0 1 ≤ t.count '?' := by
  induction h with
  | constant | ident => simp [Form.weigh]
  | none | noMore => simp [Form.weighAll]
  | cond _ _ _ _ ihtest ihyes ihno =>
      simp only [Piece.weigh_one, Form.weigh] at ihtest ihyes ihno ⊢
      rw [List.count_append, List.count_cons_self, List.count_append, List.count_cons]
      omega
  | blankLeft | blankRight | list | paren | index | member | call | unary | binary | some | next =>
      simp only [Piece.weigh_one, Piece.weigh_items, Piece.weigh_more, Form.weigh, Form.weighAll,
        List.count_append, List.count_cons] at *
      omega

/-! ## Runs of leading operators -/

/-- Behind no part of the text the run of leading operators is above the limit. -/
def Led (limit : Nat) (nesting : Nesting) (s : List Char) : Prop :=
  ∀ p, p <+: s → (nestingAfter nesting p).leading ≤ limit

theorem Led.append (h : Led limit nesting (s ++ t)) :
    Led limit nesting s ∧ Led limit (nestingAfter nesting s) t := by
  refine ⟨fun p hp => h p (hp.trans (List.prefix_append s t)), fun p hp => ?_⟩
  rw [← nestingAfter_append]
  exact h (s ++ p) ((List.prefix_append_right_inj s).2 hp)

theorem Led.cons {c : Char} (h : Led limit nesting (c :: s)) : Led limit (nesting.step c) s :=
  fun p hp => h (c :: p) ((List.prefix_cons_inj c).2 hp)

theorem Led.le (h : Led limit nesting s) : nesting.leading ≤ limit := h [] List.nil_prefix

theorem leading_blank (hw : Blank w) : (nestingAfter nesting w).leading = nesting.leading := by
  induction w generalizing nesting with
  | nil => rfl
  | cons c rest ih =>
      obtain ⟨hc, hrest⟩ := List.forall_mem_cons.1 hw
      have hstep : (nesting.step c).leading = nesting.leading := by
        unfold isSpace at hc
        simp only [Bool.or_eq_true, beq_iff_eq] at hc
        rcases hc with ((rfl | rfl) | rfl) | rfl <;> rfl
      rw [nestingAfter_cons, ih hrest, hstep]

theorem leading_unaryOp (op : UnaryOp) :
    (nestingAfter nesting op.symbol.toList).leading = nesting.leading + 1 := by
  cases op <;> rfl

/-- A layout shows the leading operators of its form in a row. -/
theorem Layout.signs_le (h : Layout t piece) {nesting : Nesting} (hled : Led limit nesting t) :
    piece.signs ≤ limit ∧ nesting.leading + piece.chain ≤ limit := by
  induction h generalizing nesting with
  | blankLeft hw _ ih =>
      have hpart := ih hled.append.2
      rwa [leading_blank hw] at hpart
  | blankRight _ _ ih => exact ih hled.append.1
  | constant | ident =>
      rw [Piece.signs, Form.signs]
      exact ⟨Nat.zero_le _, hled.le⟩
  | none | noMore =>
      rw [Piece.signs, Form.signsAll]
      exact ⟨Nat.zero_le _, hled.le⟩
  | list _ ih | paren _ ih =>
      rw [Piece.signs, Form.signs]
      exact ⟨(ih hled.cons.append.1).1, hled.le⟩
  | index _ _ _ ihtarget ihposition =>
      rw [Piece.signs, Form.signs]
      exact ⟨Nat.max_le.2 ⟨(ihtarget hled.append.1).1,
        (ihposition hled.append.2.cons.append.1).1⟩, hled.le⟩
  | member _ _ _ _ ih =>
      rw [Piece.signs, Form.signs]
      exact ⟨(ih hled.append.1).1, hled.le⟩
  | call _ _ _ ih =>
      rw [Piece.signs, Form.signs]
      exact ⟨(ih hled.append.2.append.2.cons.append.1).1, hled.le⟩
  | unary op _ _ ih =>
      obtain ⟨hsigns, hchain⟩ := ih hled.append.2
      rw [leading_unaryOp] at hchain
      simp only [Piece.signs, Piece.chain, Form.signs, Form.chain] at *
      omega
  | binary _ _ _ _ _ ihlhs ihrhs =>
      rw [Piece.signs, Form.signs]
      exact ⟨Nat.max_le.2 ⟨(ihlhs hled.append.1).1, (ihrhs hled.append.2.append.2).1⟩, hled.le⟩
  | cond _ _ _ _ ihtest ihyes ihno =>
      have hbranches := hled.append.2.cons.append
      rw [Piece.signs, Form.signs]
      exact ⟨Nat.max_le.2 ⟨(ihtest hled.append.1).1, Nat.max_le.2 ⟨(ihyes hbranches.1).1,
        (ihno hbranches.2.cons).1⟩⟩, hled.le⟩
  | some _ _ ih ihmore =>
      rw [Piece.signs, Form.signsAll]
      exact ⟨Nat.max_le.2 ⟨(ih hled.append.1).1, (ihmore hled.append.2).1⟩, hled.le⟩
  | next _ _ ih ihmore =>
      rw [Piece.signs, Form.signsAll]
      exact ⟨Nat.max_le.2 ⟨(ih hled.cons.append.1).1, (ihmore hled.cons.append.2).1⟩, hled.le⟩

/-! ## Depth -/

/-- What bounds the depth of a piece in the other measures: the leading operators of one run stand
between two brackets or conditionals, and before the first. -/
def Piece.Shallow : Piece → Prop
  | .one form =>
    (form.rank ≤ 1 →
      form.depth ≤ (maxNesting + 1) * (form.brackets + form.conditionals) + form.chain) ∧
    form.depth ≤ (maxNesting + 1) * (form.brackets + form.conditionals) + maxNesting
  | .items forms | .more forms =>
    Form.weighAll 1 1 1 forms ≤
      (maxNesting + 1) * (Form.weighAll 1 0 0 forms + Form.weighAll 0 0 1 forms) + maxNesting

theorem Layout.shallow (h : Layout t piece) (hsigns : piece.signs ≤ maxNesting) :
    piece.Shallow := by
  have hlimit : maxNesting = 32 := rfl
  induction h with
  | blankLeft _ _ ih | blankRight _ _ ih => exact ih hsigns
  | constant | ident =>
      simp only [Piece.Shallow, Form.depth, Form.weigh]
      omega
  | none | noMore =>
      simp only [Piece.Shallow, Form.weighAll]
      omega
  | list _ ih =>
      rw [Piece.signs, Form.signs] at hsigns
      have hmembers := ih hsigns
      simp only [Piece.Shallow, Form.depth, Form.brackets, Form.conditionals, Form.weigh,
        hlimit] at hmembers ⊢
      omega
  | paren _ ih =>
      rw [Piece.signs, Form.signs] at hsigns
      have hinner := (ih hsigns).2
      simp only [Piece.Shallow, Form.depth, Form.brackets, Form.conditionals, Form.weigh,
        hlimit] at hinner ⊢
      omega
  | index _ hrank _ ihtarget ihposition =>
      rw [Piece.signs, Form.signs] at hsigns
      obtain ⟨hfirst, hsecond⟩ := Nat.max_le.1 hsigns
      have htarget := (ihtarget hfirst).1 (Nat.le_trans hrank (by decide))
      have hposition := (ihposition hsecond).2
      rw [Form.chain_of_rank hrank] at htarget
      simp only [Piece.Shallow, Form.depth, Form.brackets, Form.conditionals, Form.weigh,
        hlimit] at htarget hposition ⊢
      omega
  | member _ hrank _ _ ih =>
      rw [Piece.signs, Form.signs] at hsigns
      have htarget := (ih hsigns).1 (Nat.le_trans hrank (by decide))
      rw [Form.chain_of_rank hrank] at htarget
      simp only [Piece.Shallow, Form.depth, Form.brackets, Form.conditionals, Form.weigh,
        hlimit] at htarget ⊢
      omega
  | call _ _ _ ih =>
      rw [Piece.signs, Form.signs] at hsigns
      have hargs := ih hsigns
      simp only [Piece.Shallow, Form.depth, Form.brackets, Form.conditionals, Form.weigh,
        hlimit] at hargs ⊢
      omega
  | unary op _ hrank ih =>
      rw [Piece.signs, Form.signs] at hsigns
      obtain ⟨hchain, hbelow⟩ := Nat.max_le.1 hsigns
      have hoperand := (ih hbelow).1 hrank
      simp only [Piece.Shallow, Form.depth, Form.brackets, Form.conditionals, Form.weigh,
        Form.chain, hlimit] at hoperand hchain ⊢
      omega
  | binary op _ _ _ _ ihlhs ihrhs =>
      rw [Piece.signs, Form.signs] at hsigns
      obtain ⟨hfirst, hsecond⟩ := Nat.max_le.1 hsigns
      have hlhs := (ihlhs hfirst).2
      have hrhs := (ihrhs hsecond).2
      simp only [Piece.Shallow, Form.rank, Form.depth, Form.brackets, Form.conditionals,
        Form.weigh, hlimit] at hlhs hrhs ⊢
      omega
  | cond _ _ _ _ ihtest ihyes ihno =>
      rw [Piece.signs, Form.signs] at hsigns
      obtain ⟨hfirst, hrest⟩ := Nat.max_le.1 hsigns
      obtain ⟨hsecond, hthird⟩ := Nat.max_le.1 hrest
      have htest := (ihtest hfirst).2
      have hyes := (ihyes hsecond).2
      have hno := (ihno hthird).2
      simp only [Piece.Shallow, Form.rank, Form.depth, Form.brackets, Form.conditionals,
        Form.weigh, hlimit] at htest hyes hno ⊢
      omega
  | some _ _ ih ihmore | next _ _ ih ihmore =>
      rw [Piece.signs, Form.signsAll] at hsigns
      obtain ⟨hone, hothers⟩ := Nat.max_le.1 hsigns
      have hfirst := (ih hone).2
      have hmore := ihmore hothers
      simp only [Piece.Shallow, Form.depth, Form.brackets, Form.conditionals, Form.weighAll,
        hlimit] at hfirst hmore ⊢
      omega

end PanelBus.Expr.Grammar
