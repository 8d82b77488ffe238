import PanelBus.Proofs.Expr.Places
/-!
# Reading what was written

Main statement: `parse_print`.  An expression that is written and read again is the same.
-/

namespace PanelBus.Expr

open Json (Value)
open Grammar

/-- The words that name no variable and no function. -/
def reserved : List String := ["true", "false", "null", "return"]

/-- Whether the word may name a variable or a function. -/
def Nameable (word : String) : Prop := IsName word ∧ word ∉ reserved

/-- The expressions that have a text. -/
inductive Writable : Expr → Prop where
  | null : Writable (.lit .null)
  | bool (b : Bool) : Writable (.lit (.bool b))
  | nat {n : Nat} (h : n < Word.half) : Writable (.lit (.nat n))
  | str (text : String) : Writable (.lit (.str text))
  | list {items : List Expr} (h : ∀ item ∈ items, Writable item) : Writable (.list items)
  | ident {name : String} (h : Nameable name) : Writable (.ident name)
  | index {target position : Expr} (h : Writable target) (hposition : Writable position) :
      Writable (.index target position)
  | member {target : Expr} {field : String} (h : Writable target)
      (hfield : IsName field) : Writable (.member target field)
  | call {name : String} {args : List Expr} (h : Nameable name)
      (hargs : ∀ arg ∈ args, Writable arg) : Writable (.call name args)
  | unary (op : UnaryOp) {operand : Expr} (h : Writable operand) : Writable (.unary op operand)
  | binary (op : BinaryOp) {lhs rhs : Expr} (h : Writable lhs) (hrhs : Writable rhs) :
      Writable (.binary op lhs rhs)
  | cond {test yes no : Expr} (h : Writable test) (hyes : Writable yes) (hno : Writable no) :
      Writable (.cond test yes no)

variable {e : Expr} {rest : List Char} {p : Nat}

theorem strength_le (e : Expr) : e.strength ≤ 12 := by
  cases e with
  | binary op => exact Nat.le_trans op.strength_range.2 (by decide)
  | _ => exact Nat.le_of_ble_eq_true rfl

theorem placed_of_le (h : p ≤ e.strength) (text : List Char) : placed p e text = text :=
  if_neg (Nat.not_lt.2 h)

theorem placed_of_lt (h : e.strength < p) (text : List Char) :
    placed p e text = '(' :: (text ++ [')']) := if_pos h

theorem constant_nat (n : Nat) : constant (.nat n) = Nat.toDigits 10 n := by
  change (toString n).toList = _
  rw [Nat.toString_eq_ofList_toDigits, String.toList_ofList]

/-! ## How texts begin -/

/-- What the text of an expression begins with. -/
structure Opening (e : Expr) : Prop where
  solid : Solid e.write
  unsigned : e.strength = 12 → Unsigned e.write
  /-- It is not the word `return` with a blank behind it. -/
  plain : ∀ rest, (∀ c ∈ rest.head?, isNamePart c = false) → ∀ c more,
    e.write ++ rest = "return".toList ++ c :: more → isSpace c = false

theorem opening_of_head {c : Char} {more : List Char} (hwrite : e.write = c :: more)
    (hspace : isSpace c = false) (hsign : e.strength = 12 → c ∉ ['!', '-', '~']) (hc : c ≠ 'r') :
    Opening e := by
  have hhead : c ∈ e.write.head? := by
    rw [hwrite]
    rfl
  refine ⟨⟨c, hhead, hspace⟩, fun hsame => ⟨c, hhead, hspace, hsign hsame⟩, ?_⟩
  intro rest _ d after hsame
  rw [hwrite] at hsame
  exact absurd (List.cons.inj hsame).1 hc

theorem isNamePart_of_isNameStart {c : Char} (h : isNameStart c = true) :
    isNamePart c = true := by
  unfold isNameStart at h
  unfold isNamePart Char.isAlphanum
  rw [Bool.or_right_comm, h, Bool.true_or]

theorem isNamePart_of_isSpace {c : Char} (h : isSpace c = true) : isNamePart c = false := by
  apply eq_false_of_ne_true
  intro hpart
  rw [isSpace_eq_false rfl hpart] at h
  cases h

theorem opening_of_name {word : String} {text : List Char} (hname : Nameable word)
    (hwrite : e.write = word.toList ++ text) (htext : ∀ c ∈ text.head?, isNamePart c = false) :
    Opening e := by
  obtain ⟨⟨c, more, hchars, hstart, hmore⟩, hreserved⟩ := hname
  have hhead : c ∈ e.write.head? := by
    rw [hwrite, hchars]
    rfl
  obtain ⟨hspace, _, hplain⟩ := plain_of_isNameStart hstart
  refine ⟨⟨c, hhead, hspace⟩, fun _ => ⟨c, hhead, hspace, fun hmem => hplain ?_⟩, ?_⟩
  · exact List.mem_append_right ['"', '\x27', '[', '('] hmem
  · intro rest hrest d after hsame
    apply eq_false_of_ne_true
    intro hblank
    have hword : ∀ d ∈ word.toList, isNamePart d = true := by
      rw [hchars]
      exact List.forall_mem_cons.2 ⟨isNamePart_of_isNameStart hstart, hmore⟩
    have hend : ∀ d ∈ (text ++ rest).head?, isNamePart d = false := by
      cases text with
      | nil => exact hrest
      | cons d more => exact htext
    have hspan := (span_word hword hend).1
    have hreturn : ("return".toList ++ d :: after).takeWhile isNamePart = "return".toList :=
      (span_word (List.all_eq_true.1 rfl) (by rintro d ⟨⟩; exact isNamePart_of_isSpace hblank)).1
    rw [← List.append_assoc, ← hwrite, hsame, hreturn] at hspan
    apply hreserved
    rw [← String.toList_inj.1 hspan]
    decide

theorem Opening.placed (h : Opening e) (p : Nat) :
    Solid (placed p e e.write) ∧ (p = 12 → Unsigned (placed p e e.write)) := by
  by_cases hp : p ≤ e.strength
  · rw [placed_of_le hp]
    exact ⟨h.solid, fun hsame => h.unsigned (Nat.le_antisymm e.strength_le (hsame ▸ hp))⟩
  · rw [placed_of_lt (Nat.lt_of_not_le hp)]
    exact ⟨⟨'(', rfl, rfl⟩, fun _ => ⟨'(', rfl, rfl, by decide⟩⟩

/-- An expression begins as its leftmost part does. -/
theorem opening_of_left {left : Expr} {text : List Char} (h : Opening left) (p : Nat)
    (hwrite : e.write = Expr.placed p left left.write ++ text)
    (hstrength : e.strength = 12 → p = 12) (htext : ∀ c ∈ text.head?, isNamePart c = false)
    (hsome : text ≠ []) : Opening e := by
  have happend : ∀ {P : Char → Prop}, (∃ c ∈ (Expr.placed p left left.write).head?, P c) →
      ∃ c ∈ e.write.head?, P c := by
    rintro P ⟨c, hc, hholds⟩
    obtain ⟨more, hmore⟩ := List.head?_eq_some_iff.1 hc
    refine ⟨c, ?_, hholds⟩
    rw [hwrite, hmore]
    rfl
  obtain ⟨hsolid, hunsigned⟩ := h.placed p
  refine ⟨happend hsolid, fun hsame => happend (hunsigned (hstrength hsame)), ?_⟩
  intro rest _ c more hsame
  rw [hwrite, List.append_assoc] at hsame
  by_cases hp : p ≤ left.strength
  · rw [placed_of_le hp] at hsame
    refine h.plain (text ++ rest) ?_ c more hsame
    obtain ⟨d, text, rfl⟩ := List.exists_cons_of_ne_nil hsome
    exact htext
  · rw [placed_of_lt (Nat.lt_of_not_le hp)] at hsame
    exact absurd (List.cons.inj hsame).1 (by decide)

theorem opening_of_writable (h : Writable e) : Opening e := by
  induction h with
  | null => exact opening_of_head rfl rfl (fun _ => by decide) (by decide)
  | bool b => cases b <;> exact opening_of_head rfl rfl (fun _ => by decide) (by decide)
  | @nat n h =>
      have hdigits := isDigit_of_mem_toDigits (n := n)
      cases hchars : Nat.toDigits 10 n with
      | nil => exact absurd hchars Nat.toDigits_ne_nil
      | cons c more =>
          rw [hchars] at hdigits
          have hc := hdigits c List.mem_cons_self
          have hne : ∀ d ∈ ['!', '-', '~', 'r'], c ≠ d := by
            rintro d hd rfl
            simp only [List.mem_cons, List.not_mem_nil, or_false] at hd
            rcases hd with rfl | rfl | rfl | rfl <;> cases hc
          refine opening_of_head ((constant_nat n).trans hchars) (isSpace_of_isDigit hc) ?_
            (hne 'r' (by decide))
          exact fun _ hmem => hne c (List.mem_append_left ['r'] hmem) rfl
  | str text => exact opening_of_head rfl rfl (fun _ => by decide) (by decide)
  | list h ih => exact opening_of_head rfl rfl (fun _ => by decide) (by decide)
  | ident h => exact opening_of_name h (List.append_nil _).symm (fun _ => nofun)
  | index h hposition ih _ =>
      exact opening_of_left ih 12 rfl (fun _ => rfl) (by rintro c ⟨⟩; rfl) nofun
  | member h hfield ih =>
      exact opening_of_left ih 12 rfl (fun _ => rfl) (by rintro c ⟨⟩; rfl) nofun
  | call h hargs ih => exact opening_of_name h rfl (by rintro c ⟨⟩; rfl)
  | unary op h ih => cases op <;> exact opening_of_head rfl rfl nofun (by decide)
  | binary op h hrhs ih _ =>
      refine opening_of_left ih op.strength rfl ?_ (by rintro c ⟨⟩; rfl) nofun
      cases op <;> nofun
  | cond h hyes hno ih _ _ => exact opening_of_left ih 1 rfl nofun (by rintro c ⟨⟩; rfl) nofun

/-! ## Lists of expressions -/

variable {nested : Rule Expr} {items : List Expr} {c : Char}

theorem ends_more (items : List Expr) (hc : c ∈ [')', ']', ',']) (rest : List Char) :
    Ends 0 (writeMore items ++ c :: rest) ∧
      skipSpaces (writeMore items ++ c :: rest) = writeMore items ++ c :: rest := by
  cases items with
  | nil =>
      refine ⟨ends_mark hc rest, ?_⟩
      simp only [List.mem_cons, List.not_mem_nil, or_false] at hc
      rcases hc with rfl | rfl | rfl <;> rfl
  | cons item more => exact ⟨ends_mark (by decide) _, rfl⟩

theorem moreItems_write (h : ∀ item ∈ items, Inner nested item.write item)
    (hc : c ∈ [')', ']']) {rounds : Nat} {before : List Char}
    (hbefore : skipSpaces before = writeMore items ++ c :: rest)
    (hrounds : (writeMore items).length ≤ rounds) :
    ∃ after, skipSpaces after = c :: rest ∧ moreItems nested rounds before = (items, after) := by
  induction items generalizing rounds before with
  | nil =>
      refine ⟨before, hbefore, ?_⟩
      obtain ⟨stop, hstop⟩ : Fails (symbol ",") before := by
        refine fails_symbol rfl ?_
        rw [hbefore]
        rintro ⟨⟩
        exact absurd hc (by decide)
      cases rounds with
      | zero => rfl
      | succ rounds => rw [moreItems, hstop]
  | cons item more ih =>
      obtain ⟨hitem, hmore⟩ := List.forall_mem_cons.1 h
      have hmark : c ∈ [')', ']', ','] := List.mem_append_left [','] hc
      obtain ⟨hends, hskip⟩ := ends_more more hmark rest
      have hcomma : symbol "," before = .ok ((), item.write ++ (writeMore more ++ c :: rest)) := by
        have hsplit : writeMore (item :: more) ++ c :: rest =
            ',' :: ' ' :: (item.write ++ (writeMore more ++ c :: rest)) := by
          rw [writeMore, List.cons_append, List.cons_append, List.append_assoc]
        exact symbol_eq (hbefore.trans hsplit) (hitem.solid.skipSpaces_append _)
      obtain ⟨middle, hmiddle, hread⟩ := hitem.gives _ hends
      rw [hskip] at hmiddle
      rw [writeMore, List.length_cons, List.length_cons, List.length_append] at hrounds
      obtain ⟨fewer, rfl⟩ := Nat.exists_eq_add_of_lt (show 0 < rounds by omega)
      have hfewer : (writeMore more).length ≤ fewer := by omega
      obtain ⟨after, hafter, hlater⟩ := ih hmore hmiddle hfewer
      refine ⟨after, hafter, ?_⟩
      rw [Nat.zero_add, moreItems, hcomma]
      dsimp only
      rw [hread]
      dsimp only
      rw [hlater]

theorem skipSpaces_items (h : ∀ item ∈ items, Solid item.write) (hc : c ∈ [')', ']', ','])
    (rest : List Char) :
    skipSpaces (writeItems items ++ c :: rest) = writeItems items ++ c :: rest := by
  cases items with
  | nil => exact (ends_more [] hc rest).2
  | cons item more =>
      rw [writeItems, List.append_assoc]
      exact (h item List.mem_cons_self).skipSpaces_append _

theorem items_write (h : ∀ item ∈ items, Inner nested item.write item) (hc : c ∈ [')', ']'])
    (hfails : Fails nested (c :: rest)) :
    ∃ after, skipSpaces after = c :: rest ∧
      Grammar.items nested (writeItems items ++ c :: rest) = (items, after) := by
  have hmark : c ∈ [')', ']', ','] := List.mem_append_left [','] hc
  unfold Grammar.items
  cases items with
  | nil =>
      obtain ⟨stop, hstop⟩ := hfails
      refine ⟨c :: rest, (ends_more [] hmark rest).2, ?_⟩
      rw [writeItems, List.nil_append, hstop]
  | cons item more =>
      obtain ⟨hitem, hmore⟩ := List.forall_mem_cons.1 h
      obtain ⟨hends, hskip⟩ := ends_more more hmark rest
      obtain ⟨middle, hmiddle, hread⟩ := hitem.gives _ hends
      rw [hskip] at hmiddle
      have hrounds : (writeMore more).length ≤ middle.length := by
        have hlength := length_skipSpaces_le middle
        rw [hmiddle, List.length_append] at hlength
        omega
      obtain ⟨after, hafter, hlater⟩ := moreItems_write hmore hc hmiddle hrounds
      refine ⟨after, hafter, ?_⟩
      rw [writeItems, List.append_assoc, hread]
      dsimp only
      rw [hlater]

/-- No expression begins where a bracket is closed. -/
theorem fails_expression (depth : Nat) (hc : c ∈ [')', ']']) (rest : List Char) :
    Fails (expression depth) (c :: rest) := by
  cases depth with
  | zero => exact ⟨_, rfl⟩
  | succ depth =>
      simp only [List.mem_cons, List.not_mem_nil, or_false] at hc
      rcases hc with rfl | rfl <;> exact fails_of_toBool rfl

theorem length_le_writeMore {item : Expr} (h : item ∈ items) :
    item.write.length ≤ (writeMore items).length := by
  induction items with
  | nil => cases h
  | cons first more ih =>
      rw [writeMore, List.length_cons, List.length_cons, List.length_append]
      rcases List.mem_cons.1 h with rfl | hmore
      · omega
      · have hle := ih hmore
        omega

theorem length_le_writeItems {item : Expr} (h : item ∈ items) :
    item.write.length ≤ (writeItems items).length := by
  cases items with
  | nil => cases h
  | cons first more =>
      rw [writeItems, List.length_append]
      rcases List.mem_cons.1 h with rfl | hmore
      · omega
      · have hle := length_le_writeMore hmore
        omega

/-! ## Reading back -/

/-- The text of the expression is read back at every place where it may stand. -/
structure Readable (e : Expr) : Prop where
  inner : ∀ depth, e.write.length ≤ depth → Inner (expression (depth + 1)) e.write e
  reads : ∀ depth p, 1 ≤ p → p ≤ 12 → (placed p e e.write).length ≤ depth →
    Reads (expression depth) p (placed p e e.write) e

/-- In parentheses an expression may stand everywhere. -/
theorem readable_of_inner
    (hinner : ∀ depth, e.write.length ≤ depth → Inner (expression (depth + 1)) e.write e)
    (hreads : ∀ depth p, 1 ≤ p → p ≤ e.strength → e.write.length ≤ depth →
      Reads (expression depth) p e.write e) : Readable e where
  inner := hinner
  reads := by
    intro depth p hpos hle hlength
    by_cases hp : p ≤ e.strength
    · rw [placed_of_le hp] at hlength ⊢
      exact hreads depth p hpos hp hlength
    · rw [placed_of_lt (Nat.lt_of_not_le hp)] at hlength ⊢
      rw [List.length_cons, List.length_append, List.length_singleton] at hlength
      obtain ⟨less, rfl⟩ := Nat.exists_eq_add_of_lt (show 0 < depth by omega)
      rw [Nat.zero_add] at hlength ⊢
      have hparen := reads_paren (hinner less (by omega))
      exact hparen.lower (Nat.le_refl 12) (fun _ => ⟨'(', rfl, rfl, by decide⟩) hle

theorem readable_of_reads (h : Writable e)
    (hreads : ∀ depth, e.write.length ≤ depth → Reads (expression depth) e.strength e.write e) :
    Readable e := by
  have hopening := opening_of_writable h
  have hlower : ∀ depth p, p ≤ e.strength → e.write.length ≤ depth →
      Reads (expression depth) p e.write e := fun depth p hp hlength =>
    (hreads depth hlength).lower e.strength_le hopening.unsigned hp
  refine readable_of_inner (fun depth hlength => ⟨hopening.solid, fun rest hrest => ?_⟩)
    (fun depth p _ => hlower depth p)
  exact (hlower depth 0 (Nat.zero_le _) hlength).gives hrest

theorem readable_of_primary (h : Writable e) (hstrength : e.strength = 12)
    (hprimary : ∀ depth rest, e.write.length ≤ depth → Apart rest →
      primary (expression depth) (e.write ++ rest) = .ok (e, skipSpaces rest)) : Readable e := by
  refine readable_of_reads h fun depth hlength => ?_
  rw [hstrength]
  exact reads_of_primary fun rest hrest => hprimary depth rest hlength hrest

theorem Nameable.not_keyword {word : String} (h : Nameable word) :
    word ∉ keywords.map Prod.fst :=
  fun hmem => h.2 (List.mem_append_left ["return"] hmem)

theorem readable_of_keyword {value : Value} (h : Writable (.lit value))
    (hkeyword : (value.text, value) ∈ keywords) (hconstant : constant value = value.text.toList) :
    Readable (.lit value) := by
  refine readable_of_primary h rfl fun depth rest _ hrest => ?_
  change primary _ (constant value ++ rest) = _
  rw [hconstant]
  exact primary_keyword hkeyword hrest.word

/-- What stands in brackets is read back, at one level of nesting less. -/
theorem items_readable {depth : Nat} (h : ∀ item ∈ items, Readable item)
    (hlength : (writeItems items).length < depth) (hc : c ∈ [')', ']']) (rest : List Char) :
    ∃ after, skipSpaces after = c :: rest ∧
      Grammar.items (expression depth) (writeItems items ++ c :: rest) = (items, after) := by
  obtain ⟨less, rfl⟩ := Nat.exists_eq_add_of_lt hlength
  refine items_write (fun item hitem => ?_) hc (fails_expression _ hc rest)
  have hle := length_le_writeItems hitem
  exact (h item hitem).inner _ (by omega)

theorem readable_list (h : ∀ item ∈ items, Writable item) (ih : ∀ item ∈ items, Readable item) :
    Readable (.list items) := by
  refine readable_of_primary (.list h) rfl fun depth rest hlength _ => ?_
  change ('[' :: (writeItems items ++ [']'])).length ≤ depth at hlength
  rw [List.length_cons, List.length_append, List.length_singleton] at hlength
  have hbracket : ']' ∈ [')', ']'] := by decide
  have hshort : (writeItems items).length < depth := by omega
  obtain ⟨after, hafter, hitems⟩ := items_readable ih hshort hbracket rest
  have hclose : symbol "]" after = .ok ((), skipSpaces rest) := symbol_eq hafter rfl
  have hlist := primary_list hitems hclose
  rw [skipSpaces_skipSpaces] at hlist
  change primary _ ('[' :: (writeItems items ++ [']']) ++ rest) = _
  rw [List.cons_append, List.append_assoc]
  exact hlist

theorem readable_call {name : String} {args : List Expr} (hname : Nameable name)
    (h : ∀ arg ∈ args, Writable arg) (ih : ∀ arg ∈ args, Readable arg) :
    Readable (.call name args) := by
  refine readable_of_primary (.call hname h) rfl fun depth rest hlength _ => ?_
  change (name.toList ++ '(' :: (writeItems args ++ [')'])).length ≤ depth at hlength
  rw [List.length_append, List.length_cons, List.length_append, List.length_singleton] at hlength
  have hbracket : ')' ∈ [')', ']'] := by decide
  have hshort : (writeItems args).length < depth := by omega
  obtain ⟨after, hafter, hitems⟩ := items_readable ih hshort hbracket rest
  have hclose : symbol ")" after = .ok ((), skipSpaces rest) := symbol_eq hafter rfl
  have hskip := skipSpaces_items (fun arg harg => (opening_of_writable (h arg harg)).solid)
    (c := ')') (by decide) rest
  rw [← hskip] at hitems
  have hcall := primary_call hname.1 hname.not_keyword hitems hclose
  rw [skipSpaces_skipSpaces] at hcall
  change primary _ (name.toList ++ '(' :: (writeItems args ++ [')']) ++ rest) = _
  rw [List.append_assoc, List.cons_append, List.append_assoc]
  exact hcall

theorem readable_cond {test yes no : Expr} (h : Writable (.cond test yes no))
    (htest : Readable test) (hyes : Readable yes) (hno : Readable no) :
    Readable (.cond test yes no) := by
  refine readable_of_inner (fun depth hlength => ⟨(opening_of_writable h).solid, ?_⟩)
    (fun depth p hpos hp _ => absurd (Nat.le_trans hpos hp) (Nat.not_succ_le_zero 0))
  intro rest hrest
  change (placed 1 test test.write ++ ' ' :: '?' :: ' ' :: (yes.write ++ ' ' :: ':' :: ' ' ::
    no.write)).length ≤ depth at hlength
  simp only [List.length_append, List.length_cons] at hlength
  obtain ⟨less, rfl⟩ := Nat.exists_eq_add_of_lt (show 0 < depth by omega)
  rw [Nat.zero_add] at hlength ⊢
  have hgives := gives_cond (htest.reads (less + 1) 1 (by decide) (by decide) (by omega))
    (hyes.inner less (by omega)) (hno.inner less (by omega)) hrest
  change Gives _ (placed 1 test test.write ++ ' ' :: '?' :: ' ' :: (yes.write ++ ' ' :: ':' ::
    ' ' :: no.write) ++ rest) _ rest
  simp only [List.append_assoc, List.cons_append]
  exact hgives

theorem readable_of_writable (h : Writable e) : Readable e := by
  induction h with
  | null => exact readable_of_keyword .null (.tail _ (.tail _ (.head _))) rfl
  | bool b =>
      cases b with
      | true => exact readable_of_keyword (.bool true) (.head _) rfl
      | false => exact readable_of_keyword (.bool false) (.tail _ (.head _)) rfl
  | @nat n h =>
      refine readable_of_primary (.nat h) rfl fun depth rest _ hrest => ?_
      change primary _ (constant (.nat n) ++ rest) = _
      rw [constant_nat]
      exact primary_number h hrest
  | str text =>
      refine readable_of_primary (.str text) rfl fun depth rest _ _ => ?_
      change primary _ ('\x27' :: (text.toList.flatMap escaped ++ ['\x27']) ++ rest) = _
      rw [List.cons_append, List.append_assoc]
      exact primary_quoted text rest
  | list h ih => exact readable_list h ih
  | ident h =>
      refine readable_of_primary (.ident h) rfl fun depth rest _ hrest => ?_
      exact primary_ident h.1 h.not_keyword hrest
  | @index target position h hposition ih ihposition =>
      refine readable_of_reads (.index h hposition) fun depth hlength => ?_
      change (placed 12 target target.write ++ '[' :: (position.write ++ [']'])).length ≤ depth
        at hlength
      rw [List.length_append, List.length_cons, List.length_append] at hlength
      obtain ⟨less, rfl⟩ := Nat.exists_eq_add_of_lt (show 0 < depth by omega)
      rw [Nat.zero_add] at hlength ⊢
      exact reads_index (ih.reads _ 12 (by decide) (by decide) (by omega))
        (ihposition.inner less (by omega))
  | @member target field h hfield ih =>
      refine readable_of_reads (.member h hfield) fun depth hlength => ?_
      change (placed 12 target target.write ++ '.' :: field.toList).length ≤ depth at hlength
      rw [List.length_append] at hlength
      exact reads_member (ih.reads _ 12 (by decide) (by decide) (by omega)) hfield
  | call h hargs ih => exact readable_call h hargs ih
  | @unary op operand h ih =>
      refine readable_of_reads (.unary op h) fun depth hlength => ?_
      change (op.symbol.toList ++ placed 11 operand operand.write).length ≤ depth at hlength
      rw [List.length_append] at hlength
      exact reads_unary op (ih.reads _ 11 (by decide) (by decide) (by omega))
        ((opening_of_writable h).placed 11).1
  | @binary op lhs rhs h hrhs ih ihrhs =>
      refine readable_of_reads (.binary op h hrhs) fun depth hlength => ?_
      change (placed op.strength lhs lhs.write ++ ' ' :: (op.symbol.toList ++ ' ' ::
        placed (op.strength + 1) rhs rhs.write)).length ≤ depth at hlength
      rw [List.length_append, List.length_cons, List.length_append, List.length_cons] at hlength
      obtain ⟨hpos, hle⟩ := op.strength_range
      exact reads_binary op (ih.reads _ _ hpos (by omega) (by omega))
        (ihrhs.reads _ _ (by omega) (by omega) (by omega))
        ((opening_of_writable hrhs).placed _).1
  | cond h hyes hno ih ihyes ihno => exact readable_cond (.cond h hyes hno) ih ihyes ihno

/-! ## Whole sources -/

theorem skipReturn_write (h : Opening e) : skipReturn e.write = e.write := by
  have hskip : skipSpaces e.write = e.write := by
    have happend := h.solid.skipSpaces_append []
    rwa [List.append_nil] at happend
  unfold skipReturn
  rw [hskip]
  split
  · next c rest htoken =>
    have hplain := h.plain [] (fun _ => nofun) c rest
    rw [List.append_nil] at hplain
    rw [hplain (eq_append_of_token htoken), if_neg Bool.false_ne_true]
  · rfl

theorem skipEnd_of_blank {after : List Char} (h : skipSpaces after = []) : skipEnd after = [] := by
  obtain ⟨stop, hstop⟩ : Fails (symbol ";") after := by
    refine fails_symbol rfl ?_
    rw [h]
    exact nofun
  unfold skipEnd
  rw [hstop]
  exact h

/-- What is written is read again, however deep it nests. -/
theorem program_write (h : Writable e) : program e.write = .ok e := by
  obtain ⟨after, hafter, hread⟩ :=
    ((readable_of_writable h).inner e.write.length (Nat.le_refl _)).gives [] ends_nil
  rw [List.append_nil] at hread
  unfold program
  rw [skipReturn_write (opening_of_writable h), hread]
  simp only [bind, Except.bind, skipEnd_of_blank hafter]
  rfl

/-- A source is accepted if it is within the limits and the grammar reads it. -/
theorem parse_eq_ok_iff {source : String} : parse source = .ok e ↔
    source.utf8ByteSize ≤ maxSourceSize ∧ tooDeep {} source.toList = false ∧
      program source.toList = .ok e := by
  unfold parse
  dsimp only
  split
  · next hsize => exact iff_of_false nofun fun h => absurd h.1 (Nat.not_le.2 hsize)
  next hsize =>
  split
  · next hdeep => exact iff_of_false nofun fun h => absurd h.2.1 (ne_false_of_eq_true hdeep)
  next hshallow =>
  have hlimits := And.intro (Nat.not_lt.1 hsize) (eq_false_of_ne_true hshallow)
  split
  · next tree hprogram =>
    rw [hprogram]
    exact ⟨fun h => ⟨hlimits.1, hlimits.2, congrArg _ (Except.ok.inj h)⟩,
      fun h => congrArg _ (Except.ok.inj h.2.2)⟩
  · next stop hprogram =>
    rw [hprogram]
    exact iff_of_false nofun fun h => nomatch h.2.2

/-- An expression that is written and read again is the same, if its text is not too long and does
not nest too deep. -/
theorem parse_print (h : Writable e) (hsize : e.print.utf8ByteSize ≤ maxSourceSize)
    (hnesting : tooDeep {} e.print.toList = false) : parse e.print = .ok e := by
  have hchars : e.print.toList = e.write := String.toList_ofList
  have hprogram : program e.print.toList = .ok e := by
    rw [hchars]
    exact program_write h
  exact parse_eq_ok_iff.2 ⟨hsize, hnesting, hprogram⟩

/-- A difference on the right of a difference, and a sign behind a minus. -/
def scaled : Expr :=
  .cond
    (.binary .or (.ident "on")
      (.binary .sub (.lit (.nat 10))
        (.binary .sub (.index (.ident "data") (.lit (.nat 3))) (.unary .neg (.lit (.nat 2))))))
    (.list [.lit (.str "it's"), .call "now" []])
    (.member (.ident "state") "true")

theorem parse_print_scaled :
    scaled.print = "on || 10 - (data[3] - -2) ? ['it\\'s', now()] : state.true" ∧
      parse scaled.print = .ok scaled := by
  have hprint : scaled.print = "on || 10 - (data[3] - -2) ? ['it\\'s', now()] : state.true" := by
    cbv
  have hname : ∀ {word : String}, word ∈ ["on", "data", "state", "now"] → Nameable word := by
    intro word hword
    simp only [List.mem_cons, List.not_mem_nil, or_false] at hword
    rcases hword with rfl | rfl | rfl | rfl <;> exact ⟨isName_of_all rfl rfl rfl, by decide⟩
  have hwritable : Writable scaled := by
    refine .cond (.binary _ (.ident (hname (by decide))) (.binary _ (.nat (by decide))
      (.binary _ (.index (.ident (hname (by decide))) (.nat (by decide)))
        (.unary _ (.nat (by decide)))))) (.list ?_)
      (.member (.ident (hname (by decide))) (isName_of_all rfl rfl rfl))
    intro item hitem
    simp only [List.mem_cons, List.not_mem_nil, or_false] at hitem
    rcases hitem with rfl | rfl
    · exact .str _
    · exact .call (hname (by decide)) fun _ hnone => absurd hnone List.not_mem_nil
  refine ⟨hprint, parse_print hwritable ?_ ?_⟩
  · rw [hprint]
    decide
  · rw [hprint]
    rfl

end PanelBus.Expr
