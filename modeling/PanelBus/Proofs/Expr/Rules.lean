import PanelBus.Expr.Parser
import PanelBus.Proofs.Expr.Printer
/-!
# Rules of the grammar

Each rule of the grammar is told what it reads off the front of a text, and on which texts it
fails.
-/

namespace PanelBus.Expr.Grammar

open Json (Value)

variable {α : Type} {s rest : List Char}

/-- The rule does not apply to the text. -/
def Fails (rule : Rule α) (s : List Char) : Prop := ∃ stop, rule s = .error stop

theorem fails_of_toBool {rule : Rule α} (h : (rule s).toBool = false) : Fails rule s := by
  cases hrule : rule s with
  | error stop => exact ⟨stop, hrule⟩
  | ok result =>
      rw [hrule] at h
      cases h

/-! ## Blanks -/

theorem skipSpaces_cons {c : Char} (h : isSpace c = false) (rest : List Char) :
    skipSpaces (c :: rest) = c :: rest := by
  unfold skipSpaces
  apply List.dropWhile_cons_of_neg
  rw [h]
  exact Bool.false_ne_true

/-- What is so of no blank is so of other characters only. -/
theorem isSpace_eq_false {p : Char → Bool} {c : Char}
    (hp : [' ', '\t', '\r', '\n'].any p = false) (h : p c = true) : isSpace c = false := by
  apply eq_false_of_ne_true
  intro hspace
  unfold isSpace at hspace
  simp only [Bool.or_eq_true, beq_iff_eq] at hspace
  have hblank : [' ', '\t', '\r', '\n'].any p = true := by
    apply List.any_eq_true.2
    refine ⟨c, ?_, h⟩
    simpa [or_assoc] using hspace
  rw [hp] at hblank
  cases hblank

theorem isSpace_of_skipSpaces {c : Char} (h : skipSpaces s = c :: rest) : isSpace c = false := by
  unfold skipSpaces at h
  have hhead := List.head?_dropWhile_not isSpace s
  rw [h] at hhead
  exact hhead

theorem skipSpaces_skipSpaces (s : List Char) : skipSpaces (skipSpaces s) = skipSpaces s := by
  cases hskipped : skipSpaces s with
  | nil => rfl
  | cons c rest => exact skipSpaces_cons (isSpace_of_skipSpaces hskipped) rest

theorem length_skipSpaces_le (s : List Char) : (skipSpaces s).length ≤ s.length :=
  (List.dropWhile_suffix isSpace).length_le

/-! ## Tokens -/

theorem eq_append_of_token {word : String} {u : Unit} (h : token word s = .ok (u, rest)) :
    s = word.toList ++ rest := by
  unfold token at h
  split at h
  · next hprefix =>
    obtain ⟨more, rfl⟩ := List.isPrefixOf_iff_prefix.1 hprefix
    have hrest := (Prod.mk.inj (Except.ok.inj h)).2
    rw [← String.length_toList, List.drop_left] at hrest
    rw [hrest]
  · cases h

theorem fails_token_of_not_prefix {word : String} (h : ¬word.toList <+: s) :
    Fails (token word) s := by
  refine ⟨s, ?_⟩
  unfold token
  apply if_neg
  rw [List.isPrefixOf_iff_prefix]
  exact h

theorem fails_token {word : String} {c : Char} {cs : List Char} (hword : word.toList = c :: cs)
    (h : s.head? ≠ some c) : Fails (token word) s := by
  apply fails_token_of_not_prefix
  rw [hword]
  rintro ⟨rest, rfl⟩
  exact h rfl

theorem spaced_eq {rule : Rule α} {a : α} (hs : skipSpaces s = s) (h : rule s = .ok (a, rest)) :
    spaced rule s = .ok (a, skipSpaces rest) := by
  unfold spaced
  rw [hs, h]
  rfl

theorem spaced_congr {rule : Rule α} {t : List Char} (h : skipSpaces s = skipSpaces t) :
    spaced rule s = spaced rule t := by
  unfold spaced
  rw [h]

theorem fails_spaced {rule : Rule α} (h : Fails rule (skipSpaces s)) : Fails (spaced rule) s := by
  obtain ⟨stop, hstop⟩ := h
  refine ⟨stop, ?_⟩
  unfold spaced
  rw [hstop]
  rfl

theorem symbol_eq {word : String} {more t : List Char} (hs : skipSpaces s = word.toList ++ more)
    (hmore : skipSpaces more = t) : symbol word s = .ok ((), t) := by
  have htoken : token word (word.toList ++ more) = .ok ((), more) := by
    unfold token
    rw [if_pos (List.isPrefixOf_iff_prefix.2 (List.prefix_append _ _)), ← String.length_toList,
      List.drop_left]
  unfold symbol spaced
  rw [hs, htoken, ← hmore]
  rfl

theorem fails_symbol {word : String} {c : Char} {cs : List Char} (hword : word.toList = c :: cs)
    (h : (skipSpaces s).head? ≠ some c) : Fails (symbol word) s :=
  fails_spaced (fails_token hword h)

theorem either_of_ok {first second : Rule α} {result : α × List Char}
    (h : first s = .ok result) : either first second s = .ok result := by
  unfold either
  rw [h]

theorem either_of_fails {first second : Rule α} (h : Fails first s) :
    either first second s = second s := by
  obtain ⟨stop, hstop⟩ := h
  unfold either
  rw [hstop]

theorem Fails.either {first second : Rule α} (h : Fails first s) (hsecond : Fails second s) :
    Fails (either first second) s := by
  unfold Fails
  rw [either_of_fails h]
  exact hsecond

theorem fails_bind {β : Type} {rule : Rule α} {next : α × List Char → Except (List Char) β}
    (h : Fails rule s) : ∃ stop, (rule s >>= next) = .error stop := by
  obtain ⟨stop, hstop⟩ := h
  refine ⟨stop, ?_⟩
  rw [hstop]
  rfl

/-! ## Names and constants -/

/-- What may follow a token, so that the token ends there and is not a function that is called. -/
structure Apart (rest : List Char) : Prop where
  word : ∀ c ∈ rest.head?, isNamePart c = false
  call : (skipSpaces rest).head? ≠ some '('
  fraction : ∀ more, rest = '.' :: more → ∀ c ∈ more.head?, Text.isDigit c = false

/-- The word is a name. -/
def IsName (word : String) : Prop :=
  ∃ c more, word.toList = c :: more ∧ isNameStart c = true ∧ ∀ d ∈ more, isNamePart d = true

theorem isName_of_all {word : String} {c : Char} {more : List Char}
    (hchars : word.toList = c :: more) (hstart : isNameStart c = true)
    (hmore : more.all isNamePart = true) : IsName word :=
  ⟨c, more, hchars, hstart, List.all_eq_true.1 hmore⟩

theorem span_word {p : Char → Bool} {word : List Char} (hword : ∀ c ∈ word, p c = true)
    (hrest : ∀ c ∈ rest.head?, p c = false) :
    (word ++ rest).takeWhile p = word ∧ (word ++ rest).dropWhile p = rest := by
  rw [List.takeWhile_append_of_pos hword, List.dropWhile_append_of_pos hword]
  cases rest with
  | nil => exact ⟨List.append_nil _, rfl⟩
  | cons c more =>
      have hc := hrest c rfl
      rw [List.takeWhile_cons_of_neg (by rw [hc]; exact Bool.false_ne_true),
        List.dropWhile_cons_of_neg (by rw [hc]; exact Bool.false_ne_true)]
      exact ⟨List.append_nil _, rfl⟩

theorem name_append {word : String} (hword : IsName word)
    (hrest : ∀ c ∈ rest.head?, isNamePart c = false) :
    name (word.toList ++ rest) = .ok (word, rest) := by
  obtain ⟨c, more, hchars, hstart, hmore⟩ := hword
  obtain ⟨htake, hdrop⟩ := span_word hmore hrest
  unfold name
  rw [hchars, List.cons_append]
  dsimp only
  rw [if_pos hstart, htake, hdrop, ← hchars, String.ofList_toList]

theorem isDigit_eq (c : Char) : Text.isDigit c = c.isDigit := rfl

theorem digitValue?_of_isDigit {c : Char} (h : Text.isDigit c = true) :
    Text.digitValue? 10 c = some (c.toNat - '0'.toNat) := by
  have hrange := Char.isDigit_iff_toNat.1 ((isDigit_eq c).symm.trans h)
  have hle : '0' ≤ c ∧ c ≤ '9' := by
    unfold Text.isDigit at h
    simpa using h
  have hsmall : c.toNat - '0'.toNat < 10 := by
    have hnine : '9'.toNat = '0'.toNat + 9 := rfl
    omega
  unfold Text.digitValue?
  dsimp only
  rw [if_pos hle, Option.filter_some, if_pos (decide_eq_true hsmall)]

theorem foldl_digits {digits : List Char} (h : ∀ c ∈ digits, Text.isDigit c = true) (acc : Nat) :
    digits.foldl (fun acc c => acc * 10 + (Text.digitValue? 10 c).getD 0) acc =
      Nat.ofDigitChars 10 digits acc := by
  induction digits generalizing acc with
  | nil => rfl
  | cons c rest ih =>
      obtain ⟨hc, hrest⟩ := List.forall_mem_cons.1 h
      rw [List.foldl_cons, ih hrest, Nat.ofDigitChars_cons, digitValue?_of_isDigit hc,
        Nat.mul_comm acc 10, Option.getD_some]

theorem isDigit_of_mem_toDigits {n : Nat} : ∀ c ∈ Nat.toDigits 10 n, Text.isDigit c = true :=
  fun _ hc => Nat.isDigit_of_mem_toDigits (by decide) (by decide) hc

theorem ofDecimalDigits_toDigits (n : Nat) : Text.ofDecimalDigits (Nat.toDigits 10 n) = n :=
  (foldl_digits isDigit_of_mem_toDigits 0).trans Nat.ofDigitChars_ten_toDigits

theorem isNamePart_of_isDigit {c : Char} (h : Text.isDigit c = true) : isNamePart c = true := by
  have hdigit : c.isDigit = true := h
  unfold isNamePart Char.isAlphanum
  rw [hdigit, Bool.or_true, Bool.true_or]

theorem isSpace_of_isDigit {c : Char} (h : Text.isDigit c = true) : isSpace c = false :=
  isSpace_eq_false rfl h

theorem le_toNat_of_isAlpha {c : Char} (h : c.isAlpha = true) : 'A'.toNat ≤ c.toNat := by
  unfold Char.isAlpha at h
  rw [Bool.or_eq_true] at h
  rcases h with hupper | hlower
  · exact (of_decide_eq_true hupper).1
  · have hle : 'a'.toNat ≤ c.toNat := of_decide_eq_true (Bool.and_eq_true_iff.1 hlower).1
    exact Nat.le_trans (by decide) hle

/-- What begins a name is no blank, no digit and none of the marks that begin something else. -/
theorem plain_of_isNameStart {c : Char} (h : isNameStart c = true) :
    isSpace c = false ∧ Text.isDigit c = false ∧
      c ∉ ['"', '\x27', '[', '(', '!', '-', '~'] := by
  refine ⟨isSpace_eq_false rfl h, ?_, ?_⟩
  · apply eq_false_of_ne_true
    intro hdigit
    have hrange := Char.isDigit_iff_toNat.1 ((isDigit_eq c).symm.trans hdigit)
    have hnine : '9'.toNat = 57 := rfl
    unfold isNameStart at h
    rw [Bool.or_eq_true, beq_iff_eq] at h
    rcases h with halpha | rfl
    · have hletter := le_toNat_of_isAlpha halpha
      have hupper : 'A'.toNat = 65 := rfl
      omega
    · cases hdigit
  · intro hmark
    simp only [List.mem_cons, List.not_mem_nil, or_false] at hmark
    rcases hmark with rfl | rfl | rfl | rfl | rfl | rfl | rfl <;> cases h

theorem Apart.digits (h : Apart rest) : ∀ c ∈ rest.head?, Text.isDigit c = false := by
  intro c hc
  apply eq_false_of_ne_true
  intro hdigit
  have hpart := h.word c hc
  rw [isNamePart_of_isDigit hdigit] at hpart
  cases hpart

theorem decimalNumber_append {n : Nat} (hn : n < Word.half) (hrest : Apart rest) :
    decimalNumber (Nat.toDigits 10 n ++ rest) = .ok (.nat n, rest) := by
  obtain ⟨htake, hdrop⟩ := span_word (isDigit_of_mem_toDigits (n := n)) hrest.digits
  have hsome : (Nat.toDigits 10 n).isEmpty = false :=
    List.isEmpty_eq_false_iff.2 Nat.toDigits_ne_nil
  unfold decimalNumber
  rw [htake, hdrop]
  dsimp only
  rw [hsome, if_neg Bool.false_ne_true]
  refine (if_pos ?_).trans ?_
  · split
    · next more =>
      cases more with
      | nil => rfl
      | cons c more =>
          have hc := hrest.fraction _ rfl c rfl
          rw [List.takeWhile_cons_of_neg (by rw [hc]; exact Bool.false_ne_true)]
          rfl
    · rfl
  · rw [ofDecimalDigits_toDigits, if_pos hn]

/-- Escaped characters are read as they were. -/
theorem quotedFrom_escaped (acc chars rest : List Char) :
    quotedFrom '\x27' acc (chars.flatMap escaped ++ '\x27' :: rest) =
      some (String.ofList (acc.reverse ++ chars), rest) := by
  induction chars generalizing acc with
  | nil =>
      rw [List.append_nil, List.flatMap_nil, List.nil_append]
      unfold quotedFrom
      exact if_pos rfl
  | cons c chars ih =>
      have hsplit : acc.reverse ++ c :: chars = (c :: acc).reverse ++ chars := by
        rw [List.reverse_cons, List.append_assoc]
        rfl
      rw [hsplit, ← ih, List.flatMap_cons, List.append_assoc]
      unfold escaped
      split
      · next hspecial =>
        rcases hspecial with rfl | rfl <;> rfl
      · next hplain =>
        obtain ⟨hslash, hquote⟩ := not_or.1 hplain
        change quotedFrom _ acc (c :: _) = _
        rw [quotedFrom.eq_def]
        dsimp only
        rw [if_neg hquote, if_neg hslash]
        rfl

/-! ## Expressions without operators -/

variable {nested : Rule Expr}

theorem literal_of_ok {rule : Rule Value} {value : Value} (h : rule s = .ok (value, rest)) :
    literal rule s = .ok (.lit value, rest) := by
  unfold literal
  rw [h]
  rfl

theorem fails_literal {rule : Rule Value} (h : Fails rule s) : Fails (literal rule) s := by
  obtain ⟨stop, hstop⟩ := h
  refine ⟨stop, ?_⟩
  unfold literal
  rw [hstop]
  rfl

theorem fails_hexNumber (hlower : ¬['0', 'x'] <+: s) (hupper : ¬['0', 'X'] <+: s) :
    Fails hexNumber s := by
  have hlower' : Fails (token "0x") s := fails_token_of_not_prefix hlower
  have hupper' : Fails (token "0X") s := fails_token_of_not_prefix hupper
  exact fails_bind (hlower'.either hupper')

theorem fails_decimalNumber (h : ∀ c ∈ s.head?, Text.isDigit c = false) :
    Fails decimalNumber s := by
  have hnone : s.takeWhile Text.isDigit = [] := by
    cases s with
    | nil => rfl
    | cons c more =>
        apply List.takeWhile_cons_of_neg
        rw [h c rfl]
        exact Bool.false_ne_true
  refine ⟨s, ?_⟩
  unfold decimalNumber
  rw [hnone]
  rfl

theorem primary_number {n : Nat} (hn : n < Word.half) (hrest : Apart rest) :
    primary nested (Nat.toDigits 10 n ++ rest) = .ok (.lit (.nat n), skipSpaces rest) := by
  have hspan := span_word (isDigit_of_mem_toDigits (n := n)) hrest.digits
  -- A number that began like a hexadecimal one would be a zero with a name right behind it.
  have hdecimal : ∀ x, isNamePart x = true → Text.isDigit x = false →
      ¬['0', x] <+: Nat.toDigits 10 n ++ rest := by
    rintro x hpart hdigit ⟨more, hmore⟩
    have hdrop : ('0' :: x :: more).dropWhile Text.isDigit = x :: more := by
      rw [List.dropWhile_cons_of_pos rfl]
      apply List.dropWhile_cons_of_neg
      rw [hdigit]
      exact Bool.false_ne_true
    change '0' :: x :: more = _ at hmore
    rw [hmore, hspan.2] at hdrop
    have hword := hrest.word x (by rw [hdrop]; rfl)
    rw [hpart] at hword
    cases hword
  have hspaces : skipSpaces (Nat.toDigits 10 n ++ rest) = Nat.toDigits 10 n ++ rest := by
    have hdigits := isDigit_of_mem_toDigits (n := n)
    cases hchars : Nat.toDigits 10 n with
    | nil => exact absurd hchars Nat.toDigits_ne_nil
    | cons c more =>
        rw [hchars] at hdigits
        exact skipSpaces_cons (isSpace_of_isDigit (hdigits c List.mem_cons_self)) _
  have hhex := fails_hexNumber (hdecimal 'x' rfl rfl) (hdecimal 'X' rfl rfl)
  refine spaced_eq hspaces ?_
  rw [either_of_fails (fails_literal hhex)]
  exact either_of_ok (literal_of_ok (decimalNumber_append hn hrest))

theorem primary_quoted (text : String) (rest : List Char) :
    primary nested ('\x27' :: (text.toList.flatMap escaped ++ '\x27' :: rest)) =
      .ok (.lit (.str text), skipSpaces rest) := by
  have hquoted := quotedFrom_escaped [] text.toList rest
  rw [List.reverse_nil, List.nil_append, String.ofList_toList] at hquoted
  have hread : quoted ('\x27' :: (text.toList.flatMap escaped ++ '\x27' :: rest)) =
      .ok (.str text, rest) := by
    unfold quoted
    dsimp only
    rw [if_pos (.inr rfl), hquoted]
  have hhex : Fails hexNumber ('\x27' :: (text.toList.flatMap escaped ++ '\x27' :: rest)) :=
    ⟨_, rfl⟩
  have hdecimal : Fails decimalNumber ('\x27' :: (text.toList.flatMap escaped ++ '\x27' :: rest)) :=
    ⟨_, rfl⟩
  refine spaced_eq (skipSpaces_cons rfl _) ?_
  rw [either_of_fails (fails_literal hhex), either_of_fails (fails_literal hdecimal)]
  exact either_of_ok (literal_of_ok hread)

/-- A text that begins with no constant. -/
theorem primary_cons {c : Char} (hspace : isSpace c = false) (hdigit : Text.isDigit c = false)
    (hquote : ¬(c = '"' ∨ c = '\x27')) (s : List Char) :
    primary nested (c :: s) =
      spaced (either (listLiteral nested) (either (parenthesised nested) (named nested)))
        (c :: s) := by
  have hzero : ∀ x, ¬['0', x] <+: c :: s := by
    rintro x ⟨more, hmore⟩
    rw [← (List.cons.inj hmore).1] at hdigit
    cases hdigit
  have hdecimal : Fails decimalNumber (c :: s) := by
    apply fails_decimalNumber
    rintro d ⟨⟩
    exact hdigit
  have hquoted : Fails quoted (c :: s) := by
    refine ⟨c :: s, ?_⟩
    unfold quoted
    exact if_neg hquote
  unfold primary spaced
  rw [skipSpaces_cons hspace, either_of_fails (fails_literal (fails_hexNumber (hzero _) (hzero _))),
    either_of_fails (fails_literal hdecimal), either_of_fails (fails_literal hquoted)]

theorem primary_list {members : List Expr} {more : List Char}
    (hitems : items nested s = (members, more)) (hclose : symbol "]" more = .ok ((), rest)) :
    primary nested ('[' :: s) = .ok (.list members, skipSpaces rest) := by
  have hlist : listLiteral nested ('[' :: s) =
      (symbol "]" (items nested s).2).map fun read => (.list (items nested s).1, read.2) := rfl
  rw [hitems] at hlist
  dsimp only at hlist
  rw [hclose] at hlist
  rw [primary_cons rfl rfl (by decide)]
  exact spaced_eq (skipSpaces_cons rfl s) (either_of_ok hlist)

theorem primary_paren {e : Expr} {more : List Char} (hnested : nested s = .ok (e, more))
    (hclose : symbol ")" more = .ok ((), rest)) :
    primary nested ('(' :: s) = .ok (e, skipSpaces rest) := by
  have hparen : parenthesised nested ('(' :: s) = .ok (e, rest) := by
    change (nested s).bind _ = _
    rw [hnested]
    change (symbol ")" more).bind _ = _
    rw [hclose]
    rfl
  have hlist : Fails (listLiteral nested) ('(' :: s) := ⟨_, rfl⟩
  rw [primary_cons rfl rfl (by decide)]
  refine spaced_eq (skipSpaces_cons rfl s) ?_
  rw [either_of_fails hlist]
  exact either_of_ok hparen

theorem primary_name {word : String} (hword : IsName word) (rest : List Char) :
    primary nested (word.toList ++ rest) = spaced (named nested) (word.toList ++ rest) := by
  obtain ⟨c, more, hchars, hstart, _⟩ := hword
  obtain ⟨hspace, hdigit, hplain⟩ := plain_of_isNameStart hstart
  have hne : ∀ d ∈ ['"', '\x27', '[', '(', '!', '-', '~'], c ≠ d := by
    rintro d hd rfl
    exact hplain hd
  have hlist : Fails (listLiteral nested) (c :: (more ++ rest)) :=
    fails_bind (fails_token rfl fun hc => hne '[' (by decide) (Option.some.inj hc))
  have hparen : Fails (parenthesised nested) (c :: (more ++ rest)) :=
    fails_bind (fails_token rfl fun hc => hne '(' (by decide) (Option.some.inj hc))
  have hquote : ¬(c = '"' ∨ c = '\x27') :=
    not_or.2 ⟨hne '"' (by decide), hne '\x27' (by decide)⟩
  rw [hchars, List.cons_append, primary_cons hspace hdigit hquote]
  unfold spaced
  rw [skipSpaces_cons hspace, either_of_fails hlist, either_of_fails hparen]

theorem skipSpaces_name {word : String} (hword : IsName word) (rest : List Char) :
    skipSpaces (word.toList ++ rest) = word.toList ++ rest := by
  obtain ⟨c, more, hchars, hstart, _⟩ := hword
  rw [hchars]
  exact skipSpaces_cons (plain_of_isNameStart hstart).1 _

theorem primary_of_named {word : String} (hword : IsName word) {e : Expr}
    (hnamed : named nested (word.toList ++ s) = .ok (e, rest)) :
    primary nested (word.toList ++ s) = .ok (e, skipSpaces rest) := by
  rw [primary_name hword]
  exact spaced_eq (skipSpaces_name hword s) hnamed

/-- The words that are constants. -/
def keywords : List (String × Value) :=
  [("true", .bool true), ("false", .bool false), ("null", .null)]

theorem isName_of_keyword {word : String} {value : Value} (h : (word, value) ∈ keywords) :
    IsName word := by
  simp only [keywords, List.mem_cons, List.not_mem_nil, or_false, Prod.mk.injEq] at h
  rcases h with ⟨rfl, _⟩ | ⟨rfl, _⟩ | ⟨rfl, _⟩ <;> exact isName_of_all rfl rfl rfl

theorem primary_keyword {word : String} {value : Value} (hword : (word, value) ∈ keywords)
    (hrest : ∀ c ∈ rest.head?, isNamePart c = false) :
    primary nested (word.toList ++ rest) = .ok (.lit value, skipSpaces rest) := by
  have hname := isName_of_keyword hword
  apply primary_of_named hname
  unfold named
  rw [name_append hname hrest]
  simp only [keywords, List.mem_cons, List.not_mem_nil, or_false, Prod.mk.injEq] at hword
  rcases hword with ⟨rfl, rfl⟩ | ⟨rfl, rfl⟩ | ⟨rfl, rfl⟩ <;> rfl

theorem named_eq {word : String} (hword : IsName word)
    (hkeyword : word ∉ keywords.map Prod.fst) (hrest : ∀ c ∈ rest.head?, isNamePart c = false) :
    named nested (word.toList ++ rest) =
      match arguments nested rest with
      | .ok (args, rest) => .ok (.call word args, rest)
      | .error _ => .ok (.ident word, rest) := by
  have hne : ∀ other ∈ keywords.map Prod.fst, word ≠ other := by
    rintro other hother rfl
    exact hkeyword hother
  unfold named
  rw [name_append hword hrest]
  change (if word = "true" then _ else if word = "false" then _ else if word = "null" then _
    else _) = _
  rw [if_neg (hne "true" (by decide)), if_neg (hne "false" (by decide)),
    if_neg (hne "null" (by decide))]
  rfl

/-- A name that is no function that is called. -/
theorem primary_ident {word : String} (hword : IsName word)
    (hkeyword : word ∉ keywords.map Prod.fst) (hrest : Apart rest) :
    primary nested (word.toList ++ rest) = .ok (.ident word, skipSpaces rest) := by
  apply primary_of_named hword
  obtain ⟨stop, hstop⟩ : Fails (arguments nested) rest := fails_bind (fails_symbol rfl hrest.call)
  rw [named_eq hword hkeyword hrest.word, hstop]

theorem primary_call {word : String} (hword : IsName word)
    (hkeyword : word ∉ keywords.map Prod.fst) {args : List Expr} {more : List Char}
    (hitems : items nested (skipSpaces s) = (args, more))
    (hclose : symbol ")" more = .ok ((), rest)) :
    primary nested (word.toList ++ '(' :: s) = .ok (.call word args, skipSpaces rest) := by
  have hargs : arguments nested ('(' :: s) =
      (symbol ")" (items nested (skipSpaces s)).2).map fun read =>
        ((items nested (skipSpaces s)).1, read.2) := rfl
  rw [hitems] at hargs
  dsimp only at hargs
  rw [hclose] at hargs
  apply primary_of_named hword
  rw [named_eq hword hkeyword (by rintro c ⟨⟩; rfl), hargs]
  rfl

end PanelBus.Expr.Grammar
