import PanelBus.Proofs.Expr.Values
import PanelBus.Proofs.Registry.Acts
/-!
# Repeated frames

A device whose expressions do not name its state reads the same off a frame whenever it comes.  So a
frame that comes twice changes nothing of it the second time.
-/

namespace PanelBus

open Json (Value Fields)

variable {budget : Expr.Budget} {env : DeviceEnv} {frame : Bytes} {device : Device}

/-- No expression that frames make a device of the entity evaluate names the state. -/
def Entity.Blind (entity : Entity) : Prop :=
  ∀ source ∈ entity.frameSources, Expr.Spares "state" source

/-! ## Fields that a frame gives -/

/-- Fields that differ from themselves nowhere, each of them once. -/
structure Mergeable (delta : Fields) : Prop where
  rising : NameMap.Rising delta
  proper : ∀ entry ∈ delta, entry.2.Proper

theorem Mergeable.insert {delta : Fields} (h : Mergeable delta) (field : String) {value : Value}
    (hvalue : value.Proper) : Mergeable (delta.insert field value) where
  rising := h.rising.insert field value
  proper := by
    intro entry hentry
    rcases NameMap.mem_insert hentry with rfl | hold
    · exact hvalue
    · exact h.proper entry hold

theorem Mergeable.foldl {delta : Fields} (h : Mergeable delta) {entries : List (String × Value)}
    (hentries : ∀ entry ∈ entries, entry.2.Proper) :
    Mergeable
      (entries.foldl (fun delta (field, value) => delta.insertIfNew field value) delta) := by
  induction entries generalizing delta with
  | nil => exact h
  | cons entry rest ih =>
      obtain ⟨hfirst, hrest⟩ := List.forall_mem_cons.1 hentries
      refine ih ?_ hrest
      change Mergeable (NameMap.insertIfNew entry.1 entry.2 delta)
      unfold NameMap.insertIfNew
      split
      · exact h
      · exact h.insert _ hfirst

/-- Fields that were merged into a state are no news to it. -/
theorem changedFields_union {delta : Fields} (h : Mergeable delta) (state : Fields) :
    changedFields (NameMap.union state (changedFields state delta)) delta = [] := by
  have hchanged : NameMap.Rising (changedFields state delta) := h.rising.sublist List.filter_sublist
  refine List.filter_eq_nil_iff.2 fun ⟨field, value⟩ hentry => ?_
  by_cases hnews : (field, value) ∈ changedFields state delta
  · dsimp only
    rw [NameMap.get?_union_of_mem state hchanged hnews]
    have hself : value.same value = true := h.proper _ hentry
    simp only [hself, Bool.not_true, Bool.false_eq_true, not_false_eq_true]
  · have hothers : ∀ entry ∈ changedFields state delta, entry.1 ≠ field := by
      rintro ⟨other, value'⟩ hother hsame
      obtain rfl : other = field := hsame
      obtain rfl := h.rising.unique hentry (List.mem_of_mem_filter hother)
      exact hnews hother
    dsimp only
    rw [NameMap.get?_union_of_ne state _ hothers]
    exact fun hold => hnews (List.mem_filter.2 ⟨hentry, hold⟩)

theorem NumberField.proper_of_toValue? {x : Binary64} {value : Value}
    (h : NumberField.toValue? x = some value) : value.Proper := by
  unfold toValue? at h
  split at h
  · obtain rfl := Option.some.inj h
    exact Value.proper_int _
  · split at h
    · next hfinite =>
      obtain rfl := Option.some.inj h
      exact Value.proper_float hfinite
    · cases h

theorem NumberField.proper_of_decode? {field : NumberField} {base : Nat} {value : Value}
    (h : field.decode? frame base = some value) : value.Proper := by
  unfold decode? at h
  obtain ⟨raw, -, h⟩ := Option.bind_eq_some_iff.1 h
  obtain ⟨x, -, h⟩ := Option.bind_eq_some_iff.1 h
  split at h
  · obtain rfl := Option.some.inj h
    exact Value.proper_str _
  · split at h
    · exact proper_of_toValue? h
    · exact proper_of_toValue? h

namespace Device

theorem settles_computedFields {ctx : Expr.Context} (lambdas : List (String × String))
    (h : ∀ source ∈ lambdas.map Prod.snd, Expr.ProperIfOk (Expr.outcome budget source ctx)) :
    Expr.Settles budget (computedFields ctx lambdas) Mergeable := by
  induction lambdas with
  | nil =>
      exact Expr.settles_pure ⟨NameMap.rising_nil, fun _ hnone => absurd hnone List.not_mem_nil⟩
  | cons entry rest ih =>
      obtain ⟨field, source⟩ := entry
      obtain ⟨hfirst, hrest⟩ := List.forall_mem_cons.1 h
      refine (Expr.settles_evalValue? hfirst).bind fun value? hvalue =>
        (ih hrest).bind fun fields hfields => ?_
      cases value? with
      | none => exact Expr.settles_pure hfields
      | some value => exact Expr.settles_pure (hfields.insert field (hvalue value rfl))

theorem proper_of_mem_numberFields {entry : String × Value}
    (h : entry ∈ numberFields env device frame) : entry.2.Proper := by
  obtain ⟨role, -, hrole⟩ := List.mem_filterMap.1 h
  obtain ⟨number, -, hrole⟩ := Option.bind_eq_some_iff.1 hrole
  obtain ⟨value, hvalue, hentry⟩ := Option.bind_eq_some_iff.1 hrole
  obtain rfl := Option.some.inj hentry
  exact NumberField.proper_of_decode? hvalue

theorem settles_extract (env : DeviceEnv) (frame : Bytes) (device : Device) :
    Expr.Settles budget (device.extract env frame)
      fun entries => ∀ entry ∈ entries, entry.2.Proper := by
  have hself : device.SameOutcomes budget env frame device.state := fun _ _ => rfl
  have hmode := alike_firstMode? hself device.entity.features.modes
    fun mode hmode pattern hpattern => Entity.mem_patterns_of_mode hmode hpattern
  refine hmode.settles.bind fun mode? _ => Expr.settles_pure ?_
  refine List.forall_mem_append.2 ⟨fun entry hentry => ?_, fun _ => proper_of_mem_numberFields⟩
  obtain ⟨mode, -, rfl⟩ := List.mem_map.1 hentry
  exact Value.proper_str mode

/-- What a blind device reads off a frame can be merged. -/
theorem settles_parse? (hhosts : Expr.ProperHosts env.hosts) (hblind : device.entity.Blind) :
    Expr.Settles budget (device.parse? env frame)
      fun delta? => ∀ delta, delta? = some delta → Mergeable delta := by
  have hself : device.SameOutcomes budget env frame device.state := fun _ _ => rfl
  have hcomputed : ∀ source ∈ device.entity.common.stateLambdas.map Prod.snd,
      Expr.ProperIfOk (Expr.outcome budget source (.ofFrame frame device.state env.hosts)) :=
    fun source hsource =>
      Expr.proper_of_outcome hhosts (hblind source (List.mem_append_left _ hsource))
  refine (alike_receives hself).settles.bind fun received _ => ?_
  split
  · exact Expr.settles_pure nofun
  · refine (settles_computedFields _ hcomputed).bind fun computed hmerge =>
      (settles_extract env frame device).bind fun extracted hproper => Expr.settles_pure ?_
    intro delta hdelta
    split at hdelta
    · cases hdelta
    · obtain rfl := Option.some.inj hdelta
      exact hmerge.foldl hproper

/-! ## The second time -/

theorem state_applyDelta (device : Device) (delta : Fields) :
    (Registry.applyDelta device delta).2 =
      { device with state := device.state.union (changedFields device.state delta) } := by
  unfold Registry.applyDelta merge
  dsimp only
  split <;> rfl

theorem applyDelta_of_eq_nil {delta : Fields} (h : changedFields device.state delta = []) :
    Registry.applyDelta device delta = (none, device) := by
  unfold Registry.applyDelta merge
  rw [h]
  rfl

/-- Fields that were taken over give no change when they come again. -/
theorem take_again {delta? : Option Fields} (h : ∀ delta, delta? = some delta → Mergeable delta) :
    (device.take delta?).2.take delta? = (none, (device.take delta?).2) := by
  cases delta? with
  | none => rfl
  | some delta =>
      have hmerge := h delta rfl
      have hnone : changedFields (Registry.applyDelta device delta).2.state delta = [] := by
        rw [state_applyDelta]
        exact changedFields_union hmerge _
      exact applyDelta_of_eq_nil hnone

theorem entity_take (device : Device) (delta? : Option Fields) :
    (device.take delta?).2.entity = device.entity := by
  cases delta? with
  | none => rfl
  | some delta =>
      change (Registry.applyDelta device delta).2.entity = device.entity
      rw [state_applyDelta]

theorem parse?_of_blind (hblind : device.entity.Blind) (state : Fields) :
    ((({ device with state } : Device).parse? env frame).run { engine := { budget } }).1 =
      ((device.parse? env frame).run { engine := { budget } }).1 := by
  have hsame : device.SameOutcomes budget env frame state := fun source hsource =>
    Expr.outcome_ofFrame_congr (hblind source hsource) frame device.state state env.hosts
  have hother := (alike_parse? hsame).yields (yields_parse? budget env frame device)
  exact ((yields_parse? budget env frame { device with state }).unique hother).1

/-- A blind device that has heard a frame learns nothing when it hears it again. -/
theorem respond_again (hhosts : Expr.ProperHosts env.hosts) (hblind : device.entity.Blind)
    (frame : Bytes) :
    ((device.respond budget env (.frame frame)).next.respond budget env (.frame frame)).change? =
        none ∧
      ((device.respond budget env (.frame frame)).next.respond budget env (.frame frame)).next =
        (device.respond budget env (.frame frame)).next := by
  have hmerge := (settles_parse? hhosts hblind).of_yields (yields_parse? budget env frame device)
  have hparse : ∀ next : Device, next.entity = device.entity →
      ((next.parse? env frame).run { engine := { budget } }).1 =
        ((device.parse? env frame).run { engine := { budget } }).1 := by
    rintro ⟨entity, state⟩ rfl
    exact parse?_of_blind hblind state
  have hnext : ∀ next : Device, next.entity = device.entity →
      (next.respond budget env (.frame frame)).change? =
          (next.take ((device.parse? env frame).run { engine := { budget } }).1).1 ∧
        (next.respond budget env (.frame frame)).next =
          (next.take ((device.parse? env frame).run { engine := { budget } }).1).2 := by
    intro next hentity
    rw [← hparse next hentity]
    exact ⟨rfl, rfl⟩
  obtain ⟨-, hfirst⟩ := hnext device rfl
  obtain ⟨hchange, hsecond⟩ := hnext _ (entity_take device _)
  rw [hfirst, hchange, hsecond, take_again hmerge]
  exact ⟨rfl, rfl⟩

end Device

namespace Registry

/-- A registry that acts lead to from the one of the entities, whatever is evaluated in between. -/
inductive Reached (env : DeviceEnv) (entities : List Entity) : Registry → Prop where
  | start {session : Expr.Session} {registry : Registry} (hsound : session.engine.Sound)
      (h : ((ofEntities env entities).run session).1 = .ok registry) :
      Reached env entities registry
  | act {registry : Registry} (h : Reached env entities registry) (act : Act)
      {session : Expr.Session} (hsound : session.engine.Sound) :
      Reached env entities ((registry.perform act).run session).1.2

variable {entities : List Entity} {registry : Registry}

theorem Reached.keeps (h : Reached env entities registry) :
    registry.env = env ∧ registry.Distinct := by
  induction h with
  | @start session registry hsound h =>
      refine ⟨?_, (fresh_ofEntities h).distinct⟩
      obtain ⟨result, hresult, hfinal⟩ := yields_ofEntities session.engine.budget env entities
      obtain ⟨hregistry, -⟩ := hresult session hsound rfl
      rw [h] at hregistry
      rw [((hfinal registry).1 hregistry.symm).2]
  | @act registry h act session hsound ih =>
      obtain ⟨henv, hdistinct⟩ := ih
      obtain ⟨hresult, -⟩ := yields_perform hdistinct act session hsound rfl
      rw [hresult]
      exact ⟨henv, hdistinct.respond act⟩

/-- A device that an act changes nothing of stays in the registry, and nothing is told of it. -/
theorem perform_of_unmoved (h : registry.Distinct) (hmem : device ∈ registry.devices) (act : Act)
    {session : Expr.Session} (hsound : session.engine.Sound)
    (hchange : (device.respond session.engine.budget registry.env act).change? = none)
    (hnext : (device.respond session.engine.budget registry.env act).next = device) :
    ((registry.perform act).run session).1.2.find? device.id = some device ∧
      ∀ change ∈ ((registry.perform act).run session).1.1, change.deviceId ≠ device.id := by
  obtain ⟨hresult, -⟩ := yields_perform h act session hsound rfl
  rw [hresult]
  constructor
  · apply find?_of_mem
    · exact List.mem_map.2 ⟨device, hmem, hnext⟩
    · exact h.respond act
  · intro change htold hid
    obtain ⟨other, hother, htold⟩ := List.mem_flatMap.1 htold
    have hsame : other.id = device.id :=
      (Device.deviceId_respond (Option.mem_toList.1 htold)).symm.trans hid
    rw [List.inj_on_of_nodup_map h hother hmem hsame, hchange] at htold
    exact List.not_mem_nil htold

/-- A frame that comes twice gives no change the second time of a device whose expressions do not
name the state, and leaves it as it is. -/
theorem repeated_frame (h : Reached env entities registry) (hhosts : Expr.ProperHosts env.hosts)
    (frame : Bytes) {session : Expr.Session} (hsound : session.engine.Sound) :
    let first := (registry.dispatch frame).run session
    let second := (first.1.2.dispatch frame).run first.2
    ∀ device ∈ first.1.2.devices, device.entity.Blind →
      first.1.2.find? device.id = some device ∧ second.1.2.find? device.id = some device ∧
        ∀ change ∈ second.1.1, change.deviceId ≠ device.id := by
  obtain ⟨rfl, hdistinct⟩ := h.keeps
  intro first second device hdevice hblind
  obtain ⟨hfirst, -, hmiddle, hkept⟩ := yields_perform hdistinct (.frame frame) session hsound rfl
  have hregistry : first.1.2 = { registry with
      devices := registry.devices.map fun old =>
        (old.respond session.engine.budget registry.env (.frame frame)).next } :=
    congrArg Prod.snd hfirst
  have hdistinct' : first.1.2.Distinct := by
    rw [hregistry]
    exact hdistinct.respond (.frame frame)
  -- The device of the second time is the one that the first time has left.
  have hsame : (device.respond session.engine.budget first.1.2.env (.frame frame)).change? = none ∧
      (device.respond session.engine.budget first.1.2.env (.frame frame)).next = device := by
    rw [hregistry] at hdevice ⊢
    obtain ⟨old, -, rfl⟩ := List.mem_map.1 hdevice
    have hentity : (old.respond session.engine.budget registry.env (.frame frame)).next.entity =
        old.entity := Device.entity_take old _
    rw [hentity] at hblind
    exact Device.respond_again hhosts hblind frame
  rw [← hkept] at hsame
  exact ⟨find?_of_mem hdevice hdistinct',
    perform_of_unmoved hdistinct' hdevice (.frame frame) hmiddle hsame.1 hsame.2⟩

/-- A sensor with a computed total. -/
def meter : Entity where
  common :=
    { id := "meter", state? := some { data := [0x30] }, stateLambdas := [("total", "6 * 7")] }
  features := .sensor {}

theorem repeated_frame_meter :
    let env : DeviceEnv := { hosts := [("count", fun args => .ok (.nat args.length))] }
    let first := (dispatch { env, devices := [{ entity := meter }] } [0x30]).run {}
    first.1.1 = [⟨"meter", [("total", .nat 42)], [("total", .nat 42)]⟩] ∧
      ∀ change ∈ ((first.1.2.dispatch [0x30]).run first.2).1.1, change.deviceId ≠ "meter" := by
  intro env first
  have hsound : Expr.Engine.Sound {} := Expr.sound_start {}
  have hreached : Reached env [meter] { env, devices := [{ entity := meter }] } :=
    @Reached.start _ _ {} _ hsound rfl
  have hhosts : Expr.ProperHosts env.hosts := by
    intro name host hhost args v hv
    obtain ⟨-, rfl⟩ := Prod.mk.inj (List.mem_singleton.1 (NameMap.mem_of_get? hhost))
    obtain rfl := Except.ok.inj hv
    exact Value.proper_nat _
  have hblind : meter.Blind := by
    intro source hsource e he
    obtain rfl := List.mem_singleton.1 hsource
    have hread : Expr.parse "6 * 7" = .ok (.binary .mul (.lit (.nat 6)) (.lit (.nat 7))) := rfl
    obtain rfl := Except.ok.inj (hread.symm.trans he)
    exact List.not_mem_nil
  refine ⟨rfl, ?_⟩
  exact (repeated_frame hreached hhosts [0x30] hsound { entity := meter, state := _ } (.head _)
    hblind).2.2

end Registry

end PanelBus
