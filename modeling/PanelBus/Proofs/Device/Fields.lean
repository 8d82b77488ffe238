import PanelBus.Proofs.Device
import PanelBus.Proofs.NameMap
import PanelBus.Proofs.Pattern
/-!
# The fields of a frame

A frame gives a device two sets of fields, those that its expressions compute and those that its
kind reads off the octets.  Both are taken from the state before the frame, and computed fields
win.  All that is done on the way is to evaluate sources, each once and in a fixed order.
-/

namespace PanelBus

open Json (Value Fields)

variable {budget : Expr.Budget}

/-- A pattern without a guard and exceptions matches where its octets do. -/
theorem Pattern.matches_of_plain {ctx : MatchContext} {frame : Bytes} {pattern : Pattern}
    (h : pattern.Agrees ctx frame) (hguard : pattern.guard? = none)
    (hexcept : pattern.except = []) : pattern.Matches budget ctx frame := by
  have hguarded : pattern.Guarded budget ctx frame :=
    fun source hsource => nomatch hguard.symm.trans hsource
  have hnone : Tried budget ctx frame pattern.except false [] := by
    rw [hexcept]
    exact .none
  exact ⟨_, .decided h hguarded hnone⟩

/-! ## Values of sources -/

namespace Expr

variable {ctx : Context}

theorem Asks.bind_of_pure {α β : Type} {m : SessionM α} {f : α → SessionM β} {a : α} {b : β}
    {asked : List String} (h : Asks budget ctx m a asked) (hf : f a = pure b) :
    Asks budget ctx (m >>= f) b asked := by
  rw [← List.append_nil asked]
  apply h.bind
  rw [hf]
  exact asks_pure b

/-- The value of a source, unless it fails or comes to null. -/
def valueOf? (budget : Budget) (ctx : Context) (source : String) : Option Value :=
  match outcome budget source ctx with
  | .ok .null => none
  | .ok v => some v
  | .error _ => none

theorem asks_evalValue? (source : String) :
    Asks budget ctx (evalValue? source ctx) (valueOf? budget ctx source) [source] := by
  intro session hsound hbudget
  obtain ⟨hresult, -⟩ := yields_evaluate budget source ctx session hsound hbudget
  rw [run_evalValue?, hresult, ← state_evalGuard]
  rfl

/-- The fields whose sources have a value. -/
def valued (budget : Budget) (ctx : Context) (lambdas : NameMap String) : Fields :=
  lambdas.filterMap fun (field, source) => (valueOf? budget ctx source).map fun v => (field, v)

theorem valued_cons (field source : String) (rest : NameMap String) :
    valued budget ctx ((field, source) :: rest) =
      ((valueOf? budget ctx source).map fun v => (field, v)).toList ++ valued budget ctx rest := by
  unfold valued
  rw [List.filterMap_cons]
  dsimp only
  cases valueOf? budget ctx source <;> rfl

end Expr

namespace Device

variable {env : DeviceEnv} {device : Device} {frame : Bytes} {allow : Pattern → Bool}
  {pattern? : Option Pattern} {asked : List String} {field : String}

/-! ## Patterns of a device -/

/-- What the expressions of a device see of a frame. -/
def seen (env : DeviceEnv) (device : Device) (frame : Bytes) : Expr.Context :=
  .ofFrame frame device.state env.hosts

/-- What the patterns of a device are compared in. -/
def context (env : DeviceEnv) (device : Device) (allowEmpty : Bool) : MatchContext :=
  { base := env.base, allowEmpty, state := device.state, hosts := env.hosts }

/-- The pattern of a mode may be without octets only if it has a guard or exceptions. -/
def modeAllows (pattern : Pattern) : Bool := pattern.guard?.isSome || !pattern.except.isEmpty

section

variable (budget env device frame)

/-- The frame matches the pattern, if there is one. -/
def Shows (allow : Pattern → Bool) (pattern? : Option Pattern) : Prop :=
  ∃ pattern, pattern? = some pattern ∧
    pattern.Matches budget (context env device (allow pattern)) frame

/-- The frame matches the pattern that every frame has to match. -/
def Receives : Prop := Shows budget env device frame (fun _ => true) device.entity.common.state?

/-- The comparison with a pattern, if there is one, has that result and evaluates those guards. -/
inductive Compared (allow : Pattern → Bool) : Option Pattern → Bool → List String → Prop where
  | absent : Compared allow none false []
  | course {pattern : Pattern} {result : Bool} {asked : List String}
      (h : pattern.Course budget (context env device (allow pattern)) frame result asked) :
      Compared allow (some pattern) result asked

/-- The mode is the first one whose pattern matches. -/
def FirstShown (modes : List (String × Option Pattern)) (mode : String) : Prop :=
  ∃ before pattern? after, modes = before ++ (mode, pattern?) :: after ∧
    Shows budget env device frame modeAllows pattern? ∧
    ∀ entry ∈ before, ¬Shows budget env device frame modeAllows entry.2

/-- The modes are tried in their order up to the first that matches, and those guards are evaluated
on the way. -/
inductive ModesTried : List (String × Option Pattern) → Option String → List String → Prop where
  | exhausted : ModesTried [] none []
  | found {mode : String} {pattern? : Option Pattern} {rest : List (String × Option Pattern)}
      {asked : List String} (h : Compared budget env device frame modeAllows pattern? true asked) :
      ModesTried ((mode, pattern?) :: rest) (some mode) asked
  | passed {mode : String} {pattern? : Option Pattern} {rest : List (String × Option Pattern)}
      {mode? : Option String} {asked others : List String}
      (h : Compared budget env device frame modeAllows pattern? false asked)
      (hrest : ModesTried rest mode? others) :
      ModesTried ((mode, pattern?) :: rest) mode? (asked ++ others)

/-- Those sources are evaluated, in that order: the guards of the pattern that every frame has to
match, and if it matches the computed fields, then the guards of the modes. -/
inductive Consulted : List String → Prop where
  | refused {asked : List String} (h : Compared budget env device frame (fun _ => true)
      device.entity.common.state? false asked) : Consulted asked
  | received {asked others : List String} {mode? : Option String}
      (h : Compared budget env device frame (fun _ => true) device.entity.common.state? true asked)
      (hmodes : ModesTried budget env device frame device.entity.features.modes mode? others) :
      Consulted (asked ++ (device.entity.common.stateLambdas.map Prod.snd ++ others))

/-- The map holds what the kind reads off the frame, and nothing else: its mode, decided by the
first pattern that matches, and its numbers. -/
structure Extracted (fields : Fields) : Prop where
  rising : fields.Rising
  mode (v : Value) : fields.get? device.entity.features.modeField = some v ↔
    ∃ mode, FirstShown budget env device frame device.entity.features.modes mode ∧ v = .str mode
  number : ∀ role ∈ device.entity.features.numbers,
    fields.get? role.field = role.number?.bind fun number => number.decode? frame env.base
  own : ∀ field, field ≠ device.entity.features.modeField →
    (∀ role ∈ device.entity.features.numbers, role.field ≠ field) → fields.get? field = none

end

theorem Compared.eq_true_iff {result : Bool}
    (h : Compared budget env device frame allow pattern? result asked) :
    result = true ↔ Shows budget env device frame allow pattern? := by
  cases h with
  | absent => exact iff_of_false Bool.false_ne_true nofun
  | course hcourse =>
      constructor
      · rintro rfl
        exact ⟨_, rfl, asked, hcourse⟩
      · rintro ⟨_, hsame, others, hother⟩
        obtain rfl := Option.some.inj hsame
        exact (hcourse.unique hother).1

theorem Compared.unique {a b : Bool} {others : List String}
    (h : Compared budget env device frame allow pattern? a asked)
    (hother : Compared budget env device frame allow pattern? b others) :
    a = b ∧ asked = others := by
  cases h with
  | absent =>
      cases hother
      exact ⟨rfl, rfl⟩
  | course hcourse =>
      cases hother with
      | course hsecond => exact hcourse.unique hsecond

/-- Compares the frame with a pattern, if there is one. -/
def compareFrame (env : DeviceEnv) (device : Device) (frame : Bytes) (allow : Pattern → Bool)
    (pattern? : Option Pattern) : Expr.SessionM Bool :=
  pattern?.elim (pure false) fun pattern =>
    pattern.matchesFrame (context env device (allow pattern)) frame

theorem receives_eq (env : DeviceEnv) (device : Device) (frame : Bytes) :
    device.receives env frame =
      compareFrame env device frame (fun _ => true) device.entity.common.state? := by
  unfold receives
  cases device.entity.common.state? <;> rfl

theorem inMode_eq (env : DeviceEnv) (device : Device) (frame : Bytes)
    (pattern? : Option Pattern) :
    inMode env device frame pattern? = compareFrame env device frame modeAllows pattern? := by
  cases pattern? <;> rfl

theorem obeys_compareFrame (allow : Pattern → Bool) (pattern? : Option Pattern) :
    Expr.Obeys budget (seen env device frame) (compareFrame env device frame allow pattern?)
      (Compared budget env device frame allow pattern?) := by
  cases pattern? with
  | none => exact ⟨false, [], .absent, Expr.asks_pure false⟩
  | some pattern =>
      obtain ⟨result, asked, hcourse, hasks⟩ : Expr.Obeys budget (seen env device frame)
        (pattern.matchesFrame (context env device (allow pattern)) frame) _ :=
        Pattern.obeys_matchesFrame pattern
      exact ⟨result, asked, .course hcourse, hasks⟩

/-! ## Modes -/

theorem firstShown_cons {mode other : String} {rest : List (String × Option Pattern)} :
    FirstShown budget env device frame ((other, pattern?) :: rest) mode ↔
      Shows budget env device frame modeAllows pattern? ∧ other = mode ∨
        ¬Shows budget env device frame modeAllows pattern? ∧
          FirstShown budget env device frame rest mode := by
  constructor
  · rintro ⟨before, found?, after, hsplit, hshows, hbefore⟩
    cases before with
    | nil =>
        obtain ⟨hsame, -⟩ := List.cons.inj hsplit
        obtain ⟨rfl, rfl⟩ := Prod.mk.inj hsame
        exact .inl ⟨hshows, rfl⟩
    | cons entry before =>
        obtain ⟨rfl, hrest⟩ := List.cons.inj hsplit
        obtain ⟨hfirst, hothers⟩ := List.forall_mem_cons.1 hbefore
        exact .inr ⟨hfirst, before, found?, after, hrest, hshows, hothers⟩
  · rintro (⟨hshows, rfl⟩ | ⟨hnot, before, found?, after, rfl, hshows, hbefore⟩)
    · exact ⟨[], pattern?, rest, rfl, hshows, fun _ hnone => absurd hnone List.not_mem_nil⟩
    · exact ⟨_ :: before, found?, after, rfl, hshows, List.forall_mem_cons.2 ⟨hnot, hbefore⟩⟩

theorem ModesTried.eq_some_iff {modes : List (String × Option Pattern)} {mode? : Option String}
    (h : ModesTried budget env device frame modes mode? asked) (mode : String) :
    mode? = some mode ↔ FirstShown budget env device frame modes mode := by
  induction h with
  | exhausted =>
      refine iff_of_false nofun ?_
      rintro ⟨before, _, _, hsplit, _⟩
      exact absurd hsplit (by simp)
  | found h =>
      rw [firstShown_cons, Option.some_inj]
      have hshows := h.eq_true_iff.1 rfl
      exact ⟨fun hsame => .inl ⟨hshows, hsame⟩, fun hfirst => hfirst.elim (·.2) (absurd hshows ·.1)⟩
  | passed h hrest ih =>
      have hnot := mt h.eq_true_iff.2 Bool.false_ne_true
      rw [firstShown_cons, ih]
      exact ⟨fun hlater => .inr ⟨hnot, hlater⟩, fun hfirst => hfirst.elim (absurd ·.1 hnot) (·.2)⟩

theorem ModesTried.unique {modes : List (String × Option Pattern)} {a b : Option String}
    {others : List String} (h : ModesTried budget env device frame modes a asked)
    (hother : ModesTried budget env device frame modes b others) : a = b ∧ asked = others := by
  induction h generalizing b others with
  | exhausted =>
      cases hother
      exact ⟨rfl, rfl⟩
  | found h =>
      cases hother with
      | found hsecond => exact ⟨rfl, (h.unique hsecond).2⟩
      | passed hsecond => cases (h.unique hsecond).1
  | passed h hrest ih =>
      cases hother with
      | found hsecond => cases (h.unique hsecond).1
      | passed hsecond hothers =>
          obtain ⟨-, rfl⟩ := h.unique hsecond
          obtain ⟨rfl, rfl⟩ := ih hothers
          exact ⟨rfl, rfl⟩

theorem obeys_firstMode? (modes : List (String × Option Pattern)) :
    Expr.Obeys budget (seen env device frame) (firstMode? env device frame modes)
      (ModesTried budget env device frame modes) := by
  induction modes with
  | nil => exact ⟨none, [], .exhausted, Expr.asks_pure none⟩
  | cons entry rest ih =>
      obtain ⟨mode, pattern?⟩ := entry
      obtain ⟨found, asked, hcompared, hasks⟩ := obeys_compareFrame modeAllows pattern?
      unfold firstMode?
      rw [inMode_eq]
      cases found with
      | true => exact ⟨some mode, asked, .found hcompared, hasks.bind_of_pure rfl⟩
      | false =>
          obtain ⟨mode?, others, htried, hothers⟩ := ih
          exact ⟨mode?, asked ++ others, .passed hcompared htried, hasks.bind hothers⟩

/-! ## Computed fields -/

theorem asks_computedFields (budget : Expr.Budget) (ctx : Expr.Context)
    (lambdas : NameMap String) :
    ∃ computed : Fields, computed.Rising ∧
      (∀ field, computed.get? field = (Expr.valued budget ctx lambdas).get? field) ∧
      Expr.Asks budget ctx (computedFields ctx lambdas) computed (lambdas.map Prod.snd) := by
  induction lambdas with
  | nil => exact ⟨[], NameMap.rising_nil, fun _ => rfl, Expr.asks_pure []⟩
  | cons entry rest ih =>
      obtain ⟨name, source⟩ := entry
      obtain ⟨computed, hrising, hget, hasks⟩ := ih
      have hfirst : Expr.Asks budget ctx (Expr.evalValue? source ctx) _ _ :=
        Expr.asks_evalValue? source
      unfold computedFields
      cases hvalue : Expr.valueOf? budget ctx source with
      | none =>
          rw [hvalue] at hfirst
          refine ⟨computed, hrising, fun field => ?_, hfirst.bind (hasks.bind_of_pure rfl)⟩
          rw [hget, Expr.valued_cons, hvalue]
          rfl
      | some v =>
          rw [hvalue] at hfirst
          refine ⟨computed.insert name v, hrising.insert name v, fun field => ?_,
            hfirst.bind (hasks.bind_of_pure rfl)⟩
          rw [Expr.valued_cons, hvalue]
          refine Eq.trans ?_ (NameMap.lookup_cons field name v _).symm
          by_cases hsame : field = name
          · rw [hsame, NameMap.get?_insert_self, if_pos rfl]
          · rw [NameMap.get?_insert_of_ne _ _ hsame, if_neg hsame, hget]
            rfl

/-! ## Fields of the kind -/

theorem pairwise_numbers (features : Features) :
    features.numbers.Pairwise fun role other => role.field ≠ other.field := by
  cases features <;> simp [Features.numbers]

theorem field_ne_modeField {features : Features} {role : NumberRole}
    (h : role ∈ features.numbers) : role.field ≠ features.modeField := by
  revert role
  cases features <;> simp [Features.numbers, Features.modeField]

theorem numberFields_eq (env : DeviceEnv) (device : Device) (frame : Bytes) :
    numberFields env device frame = device.entity.features.numbers.filterMap fun role =>
      (role.number?.bind fun number => number.decode? frame env.base).map fun v =>
        (role.field, v) := by
  unfold numberFields
  congr 1
  funext role
  cases role.number? with
  | none => rfl
  | some number => exact (Option.map_eq_bind ..).symm

/-- The fields that the kind reads off a frame once it is known which mode it shows. -/
def entries (env : DeviceEnv) (device : Device) (frame : Bytes) (mode? : Option String) :
    List (String × Value) :=
  (mode?.toList.map fun mode => (device.entity.features.modeField, Value.str mode)) ++
    numberFields env device frame

theorem obeys_extract :
    Expr.Obeys budget (seen env device frame) (device.extract env frame) fun extracted asked =>
      ∃ mode?, ModesTried budget env device frame device.entity.features.modes mode? asked ∧
        extracted = entries env device frame mode? := by
  obtain ⟨mode?, asked, htried, hasks⟩ := obeys_firstMode? device.entity.features.modes
  exact ⟨_, asked, ⟨mode?, htried, rfl⟩, hasks.bind_of_pure rfl⟩

theorem lookup_entries_modeField (mode? : Option String) :
    (entries env device frame mode?).lookup device.entity.features.modeField =
      mode?.map Value.str := by
  unfold entries
  cases mode? with
  | none =>
      rw [numberFields_eq]
      exact NameMap.lookup_filterMap_of_ne fun role hrole => field_ne_modeField hrole
  | some mode => exact (NameMap.lookup_cons ..).trans (if_pos rfl)

theorem lookup_entries_of_ne (mode? : Option String)
    (h : field ≠ device.entity.features.modeField) :
    (entries env device frame mode?).lookup field =
      (numberFields env device frame).lookup field := by
  unfold entries
  cases mode? with
  | none => rfl
  | some mode => exact (NameMap.lookup_cons ..).trans (if_neg h)

theorem ModesTried.extracted {mode? : Option String}
    (h : ModesTried budget env device frame device.entity.features.modes mode? asked) :
    Extracted budget env device frame (NameMap.fill [] (entries env device frame mode?)) := by
  have hget (field : String) : (NameMap.fill [] (entries env device frame mode?)).get? field =
      (entries env device frame mode?).lookup field := by
    rw [NameMap.get?_fill]
    rfl
  refine ⟨NameMap.rising_nil.fill _, fun v => ?_, fun role hrole => ?_, ?_⟩
  · rw [hget, lookup_entries_modeField, Option.map_eq_some_iff]
    simp only [h.eq_some_iff, eq_comm (a := v)]
  · rw [hget, lookup_entries_of_ne mode? (field_ne_modeField hrole), numberFields_eq]
    exact NameMap.lookup_filterMap (pairwise_numbers _) hrole
  · intro field hmode hnumber
    rw [hget, lookup_entries_of_ne mode? hmode, numberFields_eq]
    exact NameMap.lookup_filterMap_of_ne hnumber

/-! ## Frames -/

/-- The fields are the computed ones and, where none is computed, the extracted ones. -/
def Joined (computed extracted : Fields) (result? : Option Fields) : Prop :=
  ∃ delta : Fields, delta.Rising ∧
    (∀ field, delta.get? field = (computed.get? field).or (extracted.get? field)) ∧
    result? = if delta.isEmpty then none else some delta

theorem parse?_eq (env : DeviceEnv) (device : Device) (frame : Bytes) :
    device.parse? env frame = (do
      if !(← device.receives env frame) then return none
      let computed ← computedFields (seen env device frame) device.entity.common.stateLambdas
      let extracted ← device.extract env frame
      let delta := NameMap.fill computed extracted
      return if delta.isEmpty then none else some delta) := rfl

theorem Consulted.unique {others : List String} (h : Consulted budget env device frame asked)
    (hother : Consulted budget env device frame others) : asked = others := by
  cases h with
  | refused h =>
      cases hother with
      | refused hsecond => exact (h.unique hsecond).2
      | received hsecond => cases (h.unique hsecond).1
  | received h hmodes =>
      cases hother with
      | refused hsecond => cases (h.unique hsecond).1
      | received hsecond hothers => rw [(h.unique hsecond).2, (hmodes.unique hothers).2]

section

variable (budget env device frame)

/-- What a frame gives for a device: nothing unless it is received, and else the computed fields
with those that the kind extracts in whatever session. -/
structure Given (result? : Option Fields) : Prop where
  refused : ¬Receives budget env device frame → result? = none
  received : Receives budget env device frame → ∃ extracted : Fields,
    Extracted budget env device frame extracted ∧
      (∀ session : Expr.Session, session.engine.Sound → session.engine.budget = budget →
        NameMap.fill [] ((device.extract env frame).run session).1 = extracted) ∧
      Joined (Expr.valued budget (seen env device frame) device.entity.common.stateLambdas)
        extracted result?

end

theorem obeys_parse? :
    Expr.Obeys budget (seen env device frame) (device.parse? env frame) fun result? asked =>
      Given budget env device frame result? ∧ Consulted budget env device frame asked := by
  obtain ⟨received, asked, hcompared, hreceives⟩ : Expr.Obeys budget (seen env device frame)
    (compareFrame env device frame (fun _ => true) device.entity.common.state?) _ :=
    obeys_compareFrame _ _
  have hreceived := hcompared.eq_true_iff
  rw [parse?_eq, receives_eq]
  cases received with
  | false =>
      refine ⟨none, asked, ⟨⟨fun _ => rfl, fun h => ?_⟩, .refused hcompared⟩,
        hreceives.bind_of_pure rfl⟩
      exact absurd (hreceived.2 h) Bool.false_ne_true
  | true =>
      obtain ⟨computed, hrising, hget, hcomputed⟩ :=
        asks_computedFields budget (seen env device frame) device.entity.common.stateLambdas
      obtain ⟨_, others, ⟨mode?, htried, rfl⟩, hextract⟩ :
        Expr.Obeys budget (seen env device frame) (device.extract env frame) _ := obeys_extract
      -- Filling the computed map is filling an empty one and letting computed fields win.
      let delta := NameMap.fill computed (entries env device frame mode?)
      have hdelta (field : String) : delta.get? field =
          ((Expr.valued budget (seen env device frame)
            device.entity.common.stateLambdas).get? field).or
              ((NameMap.fill [] (entries env device frame mode?)).get? field) := by
        rw [NameMap.get?_fill, NameMap.get?_fill, hget]
        rfl
      refine ⟨if delta.isEmpty then none else some delta, _,
        ⟨⟨fun h => absurd (hreceived.1 rfl) h, fun _ => ?_⟩, .received hcompared htried⟩,
        hreceives.bind (hcomputed.bind (hextract.bind_of_pure rfl))⟩
      refine ⟨_, htried.extracted, fun session hsound hbudget => ?_,
        delta, hrising.fill _, hdelta, rfl⟩
      rw [hextract session hsound hbudget]

/-- Computed fields win in every kind, whichever of them fail or come to null.  A frame that is not
received gives nothing; from another one the device takes the computed fields that have a value and,
for the other names, what its kind extracts.  Nothing stays behind in the device: every frame gives
what it gave before.  The calls of host functions are those of the sources consulted, and only a
source that breaks off keeps the device from coming back. -/
theorem parse?_lambdas_win {session : Expr.Session} (hsound : session.engine.Sound)
    (env : DeviceEnv) (device : Device) (frame : Bytes) :
    let budget := session.engine.budget
    let result? := ((device.parse? env frame).run session).1
    let after := ((device.parse? env frame).run session).2
    Given budget env device frame result? ∧
      (∀ other,
        ((device.parse? env other).run after).1 = ((device.parse? env other).run session).1) ∧
      ∃ asked, Consulted budget env device frame asked ∧
        (∀ others, Consulted budget env device frame others → others = asked) ∧
        after.calls =
          session.calls ++ asked.flatMap (Expr.callsOf budget (seen env device frame)) ∧
        (after.broken = true ↔ session.broken = true ∨
          ∃ source ∈ asked, Expr.outcome budget source (seen env device frame) =
            .error .breakdown) := by
  intro budget
  obtain ⟨result?, asked, ⟨hgiven, hconsulted⟩, hasks⟩ :
    Expr.Obeys budget (seen env device frame) (device.parse? env frame) _ := obeys_parse?
  obtain ⟨hlater, hbudget, hcalls, hbroken⟩ :=
    Expr.Session.afterGuards_spec (seen env device frame) asked hsound rfl
  -- The session afterwards is again a sound one with that budget, so the next frame finds the same.
  rw [hasks session hsound rfl]
  refine ⟨hgiven, fun other => ?_, asked, hconsulted, ?_, hcalls, hbroken⟩
  · have hyields := yields_parse? budget env other device
    rw [(hyields _ hlater hbudget).1, (hyields session hsound rfl).1]
  · exact fun others hothers => hothers.unique hconsulted

/-- A lamp with a computed field that is null, one that fails, one of its own, and one that wins
over the mode. -/
def hall : Device where
  entity :=
    { common :=
        { id := "hall"
          state? := some { data := [0x30] }
          stateLambdas := [("brightness", "null"), ("fault", "data[9]"), ("level", "data[2] * 2"),
            ("state", "\"auto\"")] }
      features := .light
        { on? := some { offset := 1, data := [0x01] }, brightness? := some { offset := 2 } } }

theorem parse?_lambdas_win_hall :
    let result? := ((hall.parse? {} [0x30, 0x01, 0x09]).run {}).1
    result?.map (fun fields => Value.same (.obj fields)
        (.obj [("brightness", .nat 9), ("level", .nat 18), ("state", .str "auto")])) = some true ∧
      Given {} {} hall [0x30, 0x01, 0x09] result? ∧
      Receives {} {} hall [0x30, 0x01, 0x09] ∧
      FirstShown {} {} hall [0x30, 0x01, 0x09] hall.entity.features.modes "ON" := by
  intro result?
  have hstart : ({} : Expr.Session).engine.Sound := Expr.sound_start {}
  obtain ⟨hgiven, -⟩ := parse?_lambdas_win hstart {} hall [0x30, 0x01, 0x09]
  have hreceives : Receives {} {} hall [0x30, 0x01, 0x09] :=
    ⟨_, rfl, Pattern.matches_of_plain rfl rfl rfl⟩
  have hon : Shows {} {} hall [0x30, 0x01, 0x09] modeAllows
      (some { offset := 1, data := [0x01] }) :=
    ⟨_, rfl, Pattern.matches_of_plain rfl rfl rfl⟩
  exact ⟨by decide +kernel, hgiven, hreceives, [], _, _, rfl, hon,
    fun _ hnone => absurd hnone List.not_mem_nil⟩

/-- The frame is received, and a computed field keeps the device from giving anything. -/
theorem parse?_breaks_off :
    let device : Device :=
      { entity :=
          { common :=
              { id := "hall"
                state? := some { data := [0x30] }
                stateLambdas := [("level", "(-9223372036854775807 - 1) / -1")] }
            features := .switch { on? := some { offset := 1, data := [0x01] } } } }
    ((device.receives {} [0x30, 0x01]).run {}).1 = true ∧
      ((device.parse? {} [0x30, 0x01]).run {}).2.broken = true := by
  decide +kernel

end Device

end PanelBus
