import PanelBus.Proofs.Expr.Arithmetic
import PanelBus.Proofs.Expr.Layout
import PanelBus.Proofs.Expr.RoundTrip
import PanelBus.Proofs.Expr.Variables
import PanelBus.Proofs.Value
/-!
# Values of expressions

Operators and functions check what they compute in the binary format, so an expression comes to no
value that differs from itself unless a variable or a host function brought one in.
-/

namespace PanelBus.Expr

open Json (Value)
open Json.Value

variable {α β : Type}

/-! ## Operators and functions -/

/-- If there is a value, it equals itself. -/
def ProperIfOk (result : Except Error Value) : Prop := ∀ v, result = .ok v → v.Proper

theorem properIfOk_ok {v : Value} (h : v.Proper) : ProperIfOk (.ok v) := by
  intro w hw
  obtain rfl := Except.ok.inj hw
  exact h

theorem properIfOk_error (error : Error) : ProperIfOk (.error error) := nofun

theorem ProperIfOk.bind {result : Except Error α} {f : α → Except Error Value}
    (hf : ∀ a, result = .ok a → ProperIfOk (f a)) : ProperIfOk (result >>= f) := by
  cases result with
  | error error => exact properIfOk_error error
  | ok a => exact hf a rfl

theorem ProperIfOk.map {result : Except Error α} {f : α → Value} (hf : ∀ a, (f a).Proper) :
    ProperIfOk (result.map f) := by
  cases result with
  | error error => exact properIfOk_error error
  | ok a => exact properIfOk_ok (hf a)

theorem properIfOk_toValue (x : Scalar) : ProperIfOk x.toValue := by
  unfold Scalar.toValue
  split
  · exact properIfOk_ok (proper_int _)
  · split
    · next hfinite => exact properIfOk_ok (proper_float hfinite)
    · exact properIfOk_error _

theorem properIfOk_wordOr (fault : ArithmeticFault) (n : Int) : ProperIfOk (wordOr fault n) := by
  unfold wordOr
  split
  · exact properIfOk_ok (proper_int n)
  · exact properIfOk_error _

theorem properIfOk_elementAt {target : Value} (h : target.Proper) (position : Value) :
    ProperIfOk (elementAt target position) := by
  unfold elementAt
  split
  · refine .bind fun i _ => properIfOk_ok ?_
    split
    · exact proper_null
    · exact proper_ofOption fun v hv => proper_arr_iff.1 h v (List.mem_of_getElem? hv)
  · exact properIfOk_ok (proper_ofOption fun v hv => h.get? hv)
  · refine .bind fun i _ => properIfOk_ok ?_
    split
    · exact proper_null
    · refine proper_ofOption fun v hv => ?_
      obtain ⟨c, -, rfl⟩ := Option.map_eq_some_iff.1 hv
      exact proper_str _
  · exact properIfOk_error _

theorem properIfOk_fieldOf {target : Value} (h : target.Proper) (field : String) :
    ProperIfOk (fieldOf target field) := by
  unfold fieldOf
  split
  · exact properIfOk_ok (proper_ofOption fun v hv => h.get? hv)
  · exact properIfOk_error _

theorem properIfOk_applyUnary (op : UnaryOp) (v : Value) : ProperIfOk (applyUnary op v) := by
  cases op with
  | not => exact properIfOk_ok (proper_bool _)
  | neg =>
      refine .bind fun x _ => ?_
      cases x with
      | int n => exact properIfOk_wordOr _ _
      | float x => exact properIfOk_toValue _
  | bitNot => exact .bind fun n _ => properIfOk_ok (proper_int _)

theorem properIfOk_arithmetic (op : Arithmetic) (a b : Value) : ProperIfOk (op.apply a b) := by
  refine .bind fun x _ => .bind fun y _ => ?_
  have hbinary : ∀ x y : Binary64, ProperIfOk (op.onBinary x y) := by
    intro x y
    unfold Arithmetic.onBinary
    cases op with
    | add | sub | mul => exact properIfOk_toValue _
    | div | rem =>
        dsimp only
        split
        · exact properIfOk_error _
        · exact properIfOk_toValue _
  have hwords : ∀ m n : Int, ProperIfOk (op.onWords m n) := by
    intro m n
    unfold Arithmetic.onWords
    cases op with
    | add | sub | mul => exact properIfOk_wordOr _ _
    | div =>
        dsimp only
        split
        · exact properIfOk_error _
        · split
          · exact properIfOk_error _
          · split
            · exact properIfOk_ok (proper_int _)
            · exact properIfOk_toValue _
    | rem =>
        dsimp only
        split
        · exact properIfOk_error _
        · split
          · exact properIfOk_error _
          · exact properIfOk_ok (proper_int _)
  split
  · exact hwords _ _
  · exact hbinary _ _

theorem properIfOk_bitwise (op : Bitwise) (a b : Value) : ProperIfOk (op.apply a b) := by
  refine .bind fun m _ => .bind fun n _ => ?_
  unfold Bitwise.onWords
  cases op with
  | and | or | xor => exact properIfOk_ok (proper_int _)
  | shl | shr =>
      dsimp only
      split
      · exact properIfOk_ok (proper_int _)
      · exact properIfOk_error _

theorem properIfOk_plus {a b : Value} (ha : a.Proper) (hb : b.Proper) :
    ProperIfOk (plus a b) := by
  unfold plus
  split
  · exact properIfOk_ok (ha.append hb)
  · exact properIfOk_ok (proper_str _)
  · exact properIfOk_ok (proper_str _)
  · exact properIfOk_arithmetic _ _ _

theorem properIfOk_applyBinary (op : BinaryOp) {a b : Value} (ha : a.Proper) (hb : b.Proper) :
    ProperIfOk (applyBinary op a b) := by
  cases op with
  | or | and | eq | ne => exact properIfOk_ok (proper_bool _)
  | lt | le | gt | ge => exact .map fun _ => proper_bool _
  | bitOr | bitXor | bitAnd | shl | shr => exact properIfOk_bitwise _ _ _
  | add => exact properIfOk_plus ha hb
  | sub | mul | div | rem => exact properIfOk_arithmetic _ _ _

namespace Builtin

theorem properIfOk_bestFrom (f : Builtin) (wanted : Ordering) {kept : Value} {items : List Value}
    (hkept : kept.Proper) (hitems : ∀ item ∈ items, item.Proper) :
    ProperIfOk (bestFrom f wanted kept items) := by
  induction items generalizing kept with
  | nil => exact properIfOk_ok hkept
  | cons next rest ih =>
      obtain ⟨hnext, hrest⟩ := List.forall_mem_cons.1 hitems
      refine .bind fun _ _ => .bind fun best hbest => ih ?_ hrest
      have hone : ProperIfOk (better wanted kept next) := by
        refine .bind fun ordering _ => properIfOk_ok ?_
        split
        · exact hnext
        · exact hkept
      exact hone best hbest

theorem properIfOk_extremum (f : Builtin) (wanted : Ordering) {args : List Value}
    (h : ∀ arg ∈ args, arg.Proper) : ProperIfOk (f.extremum wanted args) := by
  unfold extremum
  dsimp only
  split
  · exact properIfOk_error _
  · next first rest hitems =>
    have hall : ∀ item ∈ first :: rest, item.Proper := by
      rw [← hitems]
      split
      · exact proper_arr_iff.1 (h _ List.mem_cons_self)
      · exact h
    obtain ⟨hfirst, hrest⟩ := List.forall_mem_cons.1 hall
    exact .bind fun _ _ => properIfOk_bestFrom f wanted hfirst hrest

theorem properIfOk_toInt (v : Value) : ProperIfOk (toInt v) := by
  unfold toInt
  split
  · split
    · split
      · exact properIfOk_ok (proper_int _)
      · exact properIfOk_error _
    · exact properIfOk_error _
  · exact properIfOk_ok (proper_int _)
  · refine .bind fun x _ => ?_
    cases x with
    | int n => exact properIfOk_ok (proper_int n)
    | float x =>
        dsimp only
        split
        · split
          · exact properIfOk_ok (proper_int _)
          · exact properIfOk_error _
        · exact properIfOk_error _

theorem properIfOk_toDouble (v : Value) : ProperIfOk (toDouble v) := by
  unfold toDouble
  split
  · split
    · exact properIfOk_toValue _
    · exact properIfOk_error _
  · exact .bind fun _ _ => properIfOk_toValue _

theorem properIfOk_apply (f : Builtin) {args : List Value} (h : ∀ arg ∈ args, arg.Proper) :
    ProperIfOk (f.apply args) := by
  unfold apply
  cases f with
  | bcdToInt | intToBcd =>
      refine .bind fun v _ => .bind fun n _ => ?_
      split
      · exact properIfOk_ok (proper_nat _)
      · exact properIfOk_error _
  | len =>
      refine .bind fun v _ => ?_
      cases v with
      | arr items | str s | obj entries => exact properIfOk_ok (proper_nat _)
      | null | bool b | num n => exact properIfOk_error _
  | min | max => exact properIfOk_extremum _ _ h
  | abs =>
      refine .bind fun v _ => .bind fun x _ => ?_
      cases x with
      | int n => exact properIfOk_wordOr _ _
      | float x => exact properIfOk_toValue _
  | int => exact .bind fun v _ => properIfOk_toInt v
  | double => exact .bind fun v _ => properIfOk_toDouble v
  | has =>
      dsimp only
      split
      · exact properIfOk_ok (proper_bool _)
      · exact properIfOk_error _

end Builtin

/-! ## Evaluations -/

mutual

/-- The constants of an expression. -/
def constants : Expr → List Value
  | .lit v => [v]
  | .list items => constantsAll items
  | .ident _ => []
  | .index target position => target.constants ++ position.constants
  | .member target _ => target.constants
  | .call _ args => constantsAll args
  | .unary _ operand => operand.constants
  | .binary _ lhs rhs => lhs.constants ++ rhs.constants
  | .cond test yes no => test.constants ++ (yes.constants ++ no.constants)

/-- The constants of expressions. -/
def constantsAll : List Expr → List Value
  | [] => []
  | e :: rest => e.constants ++ constantsAll rest

end

/-- If the computation gives a result, the result has the property. -/
def Ensures (P : α → Prop) (m : EvalM α) : Prop := ∀ t a after, m.run t = (.ok a, after) → P a

theorem Ensures.bind {P : α → Prop} {Q : β → Prop} {m : EvalM α} {f : α → EvalM β}
    (h : Ensures P m) (hf : ∀ a, P a → Ensures Q (f a)) : Ensures Q (m >>= f) := by
  intro t b after hrun
  obtain ⟨a, middle, hm, hnext⟩ := exists_of_run_bind hrun
  exact hf a (h t a middle hm) middle b after hnext

theorem ensures_pure {P : α → Prop} {a : α} (h : P a) : Ensures P (pure a) := by
  intro t b after hrun
  obtain rfl := Except.ok.inj (Prod.mk.inj hrun).1
  exact h

theorem ensures_throw (P : α → Prop) (error : Error) : Ensures P (throw error) := nofun

theorem ensures_true (m : EvalM α) : Ensures (fun _ => True) m := fun _ _ _ _ => trivial

theorem ensures_ofResult {result : Except Error Value} (h : ProperIfOk result) :
    Ensures Proper (ofResult result) := by
  cases result with
  | error error => exact ensures_throw _ error
  | ok v => exact ensures_pure (h v rfl)

/-- The values that host functions give equal themselves. -/
def ProperHosts (hosts : NameMap HostFunction) : Prop :=
  ∀ name host, hosts.get? name = some host → ∀ args v, host args = .ok v → v.Proper

variable {ctx : Context} {budget : Budget}

theorem ensures_applyFunction (hhosts : ProperHosts ctx.hosts) (name : String)
    {args : List Value} (h : ∀ arg ∈ args, arg.Proper) :
    Ensures Proper (applyFunction ctx budget name args) := by
  unfold applyFunction
  split
  · exact ensures_ofResult (Builtin.properIfOk_apply _ h)
  · split
    · next host hhost =>
      unfold callHost
      refine (ensures_true _).bind fun _ _ => ?_
      split
      · next v hv => exact ensures_pure (hhosts name host hhost args v hv)
      · exact ensures_throw _ _
    · exact ensures_throw _ _

mutual

/-- An expression whose constants and variables equal themselves comes to a value that does. -/
theorem ensures_eval (hhosts : ProperHosts ctx.hosts) : ∀ e : Expr,
    (∀ v ∈ e.constants, v.Proper) →
    (∀ name ∈ e.idents, ∀ v, ctx.vars.get? name = some v → v.Proper) →
    Ensures Proper (eval ctx budget e)
  | .lit v, hconstants, _ => by
      rw [eval]
      exact (ensures_true _).bind fun _ _ => ensures_pure (hconstants v List.mem_cons_self)
  | .list items, hconstants, hvars => by
      rw [eval]
      refine (ensures_true _).bind fun _ _ =>
        (ensures_evalAll hhosts items hconstants hvars).bind fun vs hvs => ?_
      exact ensures_pure (proper_arr_iff.2 hvs)
  | .ident name, _, hvars => by
      rw [eval]
      refine (ensures_true _).bind fun _ _ => ?_
      split
      · next v hv => exact ensures_pure (hvars name List.mem_cons_self v hv)
      · exact ensures_throw _ _
  | .index target position, hconstants, hvars => by
      have htarget := ensures_eval hhosts target
        (fun v hv => hconstants v (List.mem_append_left _ hv))
        (fun name hname => hvars name (List.mem_append_left _ hname))
      rw [eval]
      exact (ensures_true _).bind fun _ _ => htarget.bind fun t ht =>
        (ensures_true _).bind fun p _ => ensures_ofResult (properIfOk_elementAt ht p)
  | .member target field, hconstants, hvars => by
      rw [eval]
      exact (ensures_true _).bind fun _ _ => (ensures_eval hhosts target hconstants hvars).bind
        fun t ht => ensures_ofResult (properIfOk_fieldOf ht field)
  | .call name args, hconstants, hvars => by
      rw [eval]
      exact (ensures_true _).bind fun _ _ => (ensures_evalAll hhosts args hconstants hvars).bind
        fun vs hvs => ensures_applyFunction hhosts name hvs
  | .unary op operand, _, _ => by
      rw [eval]
      exact (ensures_true _).bind fun _ _ => (ensures_true _).bind fun v _ =>
        ensures_ofResult (properIfOk_applyUnary op v)
  | .binary op lhs rhs, hconstants, hvars => by
      have hlhs := ensures_eval hhosts lhs
        (fun v hv => hconstants v (List.mem_append_left _ hv))
        (fun name hname => hvars name (List.mem_append_left _ hname))
      have hrhs := ensures_eval hhosts rhs
        (fun v hv => hconstants v (List.mem_append_right _ hv))
        (fun name hname => hvars name (List.mem_append_right _ hname))
      rw [eval]
      refine (ensures_true _).bind fun _ _ => hlhs.bind fun a ha => ?_
      split
      · exact ensures_pure (proper_bool _)
      · exact ensures_pure (proper_bool _)
      · exact hrhs.bind fun b hb => ensures_ofResult (properIfOk_applyBinary _ ha hb)
  | .cond test yes no, hconstants, hvars => by
      have hyes := ensures_eval hhosts yes
        (fun v hv => hconstants v (List.mem_append_right _ (List.mem_append_left _ hv)))
        (fun name hname => hvars name (List.mem_append_right _ (List.mem_append_left _ hname)))
      have hno := ensures_eval hhosts no
        (fun v hv => hconstants v (List.mem_append_right _ (List.mem_append_right _ hv)))
        (fun name hname => hvars name (List.mem_append_right _ (List.mem_append_right _ hname)))
      rw [eval]
      refine (ensures_true _).bind fun _ _ => (ensures_true _).bind fun v _ => ?_
      split
      · exact hyes
      · exact hno

theorem ensures_evalAll (hhosts : ProperHosts ctx.hosts) : ∀ items : List Expr,
    (∀ v ∈ constantsAll items, v.Proper) →
    (∀ name ∈ identsAll items, ∀ v, ctx.vars.get? name = some v → v.Proper) →
    Ensures (fun vs => ∀ v ∈ vs, v.Proper) (evalAll ctx budget items)
  | [], _, _ => ensures_pure fun _ hnone => absurd hnone List.not_mem_nil
  | e :: rest, hconstants, hvars => by
      have hfirst := ensures_eval hhosts e
        (fun v hv => hconstants v (List.mem_append_left _ hv))
        (fun name hname => hvars name (List.mem_append_left _ hname))
      have hrest := ensures_evalAll hhosts rest
        (fun v hv => hconstants v (List.mem_append_right _ hv))
        (fun name hname => hvars name (List.mem_append_right _ hname))
      rw [evalAll]
      exact hfirst.bind fun v hv => hrest.bind fun vs hvs =>
        ensures_pure (List.forall_mem_cons.2 ⟨hv, hvs⟩)

end

/-! ## Sources -/

namespace Grammar

/-- The constants of a piece. -/
def Piece.constants : Piece → List Value
  | .one form => form.expr.constants
  | .items forms | .more forms => constantsAll (Form.exprs forms)

theorem Constant.proper {t : List Char} {value : Value} (h : Constant t value) : value.Proper := by
  cases h with
  | @keyword word value h =>
      simp only [keywords, List.mem_cons, List.not_mem_nil, or_false] at h
      rcases h with h | h | h <;> obtain ⟨-, rfl⟩ := Prod.mk.inj h
      · exact proper_bool true
      · exact proper_bool false
      · exact proper_null
  | whole n h => exact proper_nat n
  | fraction h hfinite => exact proper_float hfinite
  | quoted s h => exact proper_str s

/-- The constants of what is laid out equal themselves. -/
theorem Layout.proper {t : List Char} {piece : Piece} (h : Layout t piece) :
    ∀ v ∈ piece.constants, v.Proper := by
  induction h with
  | blankLeft _ _ ih => exact ih
  | blankRight _ _ ih => exact ih
  | constant h => exact List.forall_mem_singleton.2 h.proper
  | ident hword => exact fun _ hnone => absurd hnone List.not_mem_nil
  | list _ ih => exact ih
  | paren _ ih => exact ih
  | index _ _ _ ihtarget ihposition => exact List.forall_mem_append.2 ⟨ihtarget, ihposition⟩
  | member _ _ _ _ ih => exact ih
  | call _ _ _ ih => exact ih
  | unary op _ _ ih => exact ih
  | binary op _ _ _ _ ihlhs ihrhs => exact List.forall_mem_append.2 ⟨ihlhs, ihrhs⟩
  | cond _ _ _ _ ihtest ihyes ihno =>
      exact List.forall_mem_append.2 ⟨ihtest, List.forall_mem_append.2 ⟨ihyes, ihno⟩⟩
  | none | noMore => exact fun _ hnone => absurd hnone List.not_mem_nil
  | some _ _ ih ihmore => exact List.forall_mem_append.2 ⟨ih, ihmore⟩
  | next _ _ ih ihmore => exact List.forall_mem_append.2 ⟨ih, ihmore⟩

end Grammar

theorem proper_of_parse {source : String} {e : Expr} (h : parse source = .ok e) :
    ∀ v ∈ e.constants, v.Proper := by
  obtain ⟨-, -, hprogram⟩ := parse_eq_ok_iff.1 h
  obtain ⟨_, _, _, form, -, -, -, hlayout, rfl⟩ := Grammar.layout_of_program hprogram
  exact hlayout.proper

/-- A source that does not name the state comes to values that equal themselves. -/
theorem proper_of_outcome {source : String} {frame : Bytes} {state : Json.Fields}
    {hosts : NameMap HostFunction} (hhosts : ProperHosts hosts) (h : Spares "state" source) :
    ProperIfOk (outcome budget source (.ofFrame frame state hosts)) := by
  refine .bind fun e hread v hv => ?_
  have hvars : ∀ name ∈ e.idents, ∀ value,
      (Context.ofFrame frame state hosts).vars.get? name = some value → value.Proper := by
    intro name hname value hvalue
    have hother : name ≠ "state" := fun hsame => h e hread (hsame ▸ hname)
    have hdata : Proper (.obj [("data", .arr (frame.map fun b => .nat b.toNat))]) := by
      refine proper_obj_iff.2 (List.forall_mem_singleton.2 (proper_arr_iff.2 fun item hitem => ?_))
      obtain ⟨b, -, rfl⟩ := List.mem_map.1 hitem
      exact proper_nat _
    rw [get?_ofFrame hother] at hvalue
    exact hdata.get? hvalue
  exact ensures_eval hhosts e (proper_of_parse hread) hvars {} v _ (Prod.ext hv rfl)

theorem settles_evalValue? {source : String} (h : ProperIfOk (outcome budget source ctx)) :
    Settles budget (evalValue? source ctx) fun value? => ∀ v, value? = some v → v.Proper := by
  have hevaluate : Settles budget (evaluate source ctx) ProperIfOk :=
    ⟨_, _, yields_evaluate budget source ctx, h⟩
  refine hevaluate.bind fun result hresult => ?_
  cases result with
  | error error => exact settles_pure nofun
  | ok v =>
      have hsome : ∀ w, some v = some w → w.Proper := fun w hw => Option.some.inj hw ▸ hresult v rfl
      cases v with
      | null => exact settles_pure nofun
      | bool b | num n | str s | arr items | obj entries => exact settles_pure hsome

end PanelBus.Expr
