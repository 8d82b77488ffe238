import PanelBus.Proofs.Device
import PanelBus.Proofs.Registry
/-!
# Devices one by one

At every act each device of a registry does what it does on its own.  What a registry tells and how
its devices end are put together from that.
-/

namespace PanelBus

open Json (Value Fields)

namespace Registry

/-- What reaches the devices of a registry. -/
inductive Act where
  | frame (frame : Bytes)
  /-- A command whose implied state is taken over before it is confirmed. -/
  | optimistic (id command : String) (value? : Option Value)

/-- Whether the act reaches the device of that id. -/
def Act.reaches (id : String) : Act → Bool
  | .frame _ => true
  | .optimistic other _ _ => id == other

/-- The registry after the act, and the changes that come of it. -/
def perform (registry : Registry) : Act → Expr.SessionM (List StateChange × Registry)
  | .frame frame => registry.dispatch frame
  | .optimistic id command value? =>
    let (change?, registry) := registry.applyOptimistic id command value?
    return (change?.toList, registry)

/-- The registry after the acts, and the changes that come of each. -/
def performAll (registry : Registry) :
    List Act → Expr.SessionM (List (List StateChange) × Registry)
  | [] => return ([], registry)
  | act :: rest => do
    let (changes, registry) ← registry.perform act
    let (told, registry) ← registry.performAll rest
    return (changes :: told, registry)

end Registry

open Registry (Act)

/-! ## One device -/

/-- What a device does at an act. -/
structure Device.Response where
  change? : Option StateChange
  next : Device
  /-- Whether an evaluation breaks off. -/
  broke : Bool

namespace Device

variable (budget : Expr.Budget) (env : DeviceEnv)

/-- The device with the fields taken over, if there are any. -/
def take (device : Device) (delta? : Option Fields) : Option StateChange × Device :=
  delta?.elim (none, device) (Registry.applyDelta device)

/-- What the device does at the act, alone in a new session. -/
def respond (act : Act) (device : Device) : Response :=
  match act with
  | .frame frame =>
    let (delta?, session) := (device.parse? env frame).run { engine := { budget } }
    ⟨(device.take delta?).1, (device.take delta?).2, session.broken⟩
  | .optimistic id command value? =>
    let implied? := if device.id == id then device.optimisticDelta? command value? else none
    let taken := device.take implied?
    ⟨taken.1, taken.2, false⟩

/-- The device after the acts. -/
def after (acts : List Act) (device : Device) : Device :=
  acts.foldl (fun device act => (device.respond budget env act).next) device

/-- Whether an evaluation of the device breaks off at one of the acts. -/
def breaks : List Act → Device → Bool
  | [], _ => false
  | act :: rest, device =>
    (device.respond budget env act).broke || breaks rest (device.respond budget env act).next

end Device

namespace Registry

variable (budget : Expr.Budget) (env : DeviceEnv)

/-- What the devices tell act by act. -/
def tellings : List Act → List Device → List (List StateChange)
  | [], _ => []
  | act :: rest, devices =>
    (devices.flatMap fun device => (device.respond budget env act).change?.toList) ::
      tellings rest (devices.map fun device => (device.respond budget env act).next)

end Registry

variable {budget : Expr.Budget} {env : DeviceEnv}

namespace Device

theorem takes_take (device : Device) (delta? : Option Fields) :
    device.Takes (device.take delta?).1 (device.take delta?).2 := by
  cases delta? with
  | none => exact .keep
  | some delta => exact Registry.takes_applyDelta device delta

theorem takes_respond (budget : Expr.Budget) (env : DeviceEnv) (act : Act) (device : Device) :
    device.Takes (device.respond budget env act).change? (device.respond budget env act).next := by
  cases act with
  | frame frame => exact takes_take device _
  | optimistic id command value? => exact takes_take device _

theorem id_respond (act : Act) (device : Device) :
    (device.respond budget env act).next.id = device.id :=
  (takes_respond budget env act device).id_eq

theorem Takes.deviceId_eq {device next : Device} {change : StateChange}
    (h : device.Takes (some change) next) : change.deviceId = device.id := by
  cases h with
  | change hid halters => exact hid

theorem deviceId_respond {act : Act} {device : Device} {change : StateChange}
    (h : change ∈ (device.respond budget env act).change?) : change.deviceId = device.id := by
  have htakes := takes_respond budget env act device
  rw [Option.mem_def.1 h] at htakes
  exact htakes.deviceId_eq

theorem id_after (acts : List Act) (device : Device) :
    (device.after budget env acts).id = device.id := by
  induction acts generalizing device with
  | nil => rfl
  | cons act rest ih => exact (ih _).trans (id_respond act device)

/-- An act that does not reach the device leaves it as it is. -/
theorem respond_of_not_reaches {act : Act} {device : Device} (h : act.reaches device.id = false) :
    device.respond budget env act = ⟨none, device, false⟩ := by
  cases act with
  | frame frame => cases h
  | optimistic id command value? =>
      have hother : (device.id == id) = false := h
      unfold respond
      dsimp only
      rw [hother]
      rfl

/-- With a command of its own the device takes over what the command implies. -/
theorem respond_optimistic (device : Device) (command : String) (value? : Option Value) :
    device.respond budget env (.optimistic device.id command value?) =
      ⟨(device.take (device.optimisticDelta? command value?)).1,
        (device.take (device.optimisticDelta? command value?)).2, false⟩ := by
  unfold respond
  dsimp only
  rw [beq_self_eq_true, if_pos rfl]

theorem after_filter (acts : List Act) (device : Device) :
    device.after budget env (acts.filter (·.reaches device.id)) = device.after budget env acts := by
  induction acts generalizing device with
  | nil => rfl
  | cons act rest ih =>
      have hnext := ih (device.respond budget env act).next
      rw [id_respond] at hnext
      cases hreaches : act.reaches device.id with
      | false =>
          rw [respond_of_not_reaches hreaches] at hnext
          rw [List.filter_cons_of_neg (ne_true_of_eq_false hreaches), hnext, after, after,
            List.foldl_cons, respond_of_not_reaches hreaches]
      | true =>
          rw [List.filter_cons_of_pos hreaches]
          exact hnext

theorem breaks_filter (acts : List Act) (device : Device) :
    device.breaks budget env (acts.filter (·.reaches device.id)) =
      device.breaks budget env acts := by
  induction acts generalizing device with
  | nil => rfl
  | cons act rest ih =>
      have hnext := ih (device.respond budget env act).next
      rw [id_respond] at hnext
      cases hreaches : act.reaches device.id with
      | false =>
          rw [respond_of_not_reaches hreaches] at hnext
          rw [List.filter_cons_of_neg (ne_true_of_eq_false hreaches), hnext, breaks,
            respond_of_not_reaches hreaches, Bool.false_or]
      | true => rw [List.filter_cons_of_pos hreaches, breaks, breaks, hnext]

/-- Only the acts that reach a device make it tell anything. -/
theorem tellings_filter (acts : List Act) (device : Device) :
    (Registry.tellings budget env (acts.filter (·.reaches device.id)) [device]).flatten =
      (Registry.tellings budget env acts [device]).flatten := by
  induction acts generalizing device with
  | nil => rfl
  | cons act rest ih =>
      have hnext := ih (device.respond budget env act).next
      rw [id_respond] at hnext
      cases hreaches : act.reaches device.id with
      | false =>
          rw [respond_of_not_reaches hreaches] at hnext
          rw [List.filter_cons_of_neg (ne_true_of_eq_false hreaches), hnext, Registry.tellings,
            List.map_singleton, List.flatMap_singleton, respond_of_not_reaches hreaches]
          rfl
      | true =>
          rw [List.filter_cons_of_pos hreaches, Registry.tellings, Registry.tellings,
            List.flatten_cons, List.flatten_cons, List.map_singleton, hnext]

end Device

/-! ## All devices -/

namespace Registry

theorem map_id_respond (act : Act) (devices : List Device) :
    (devices.map fun device => (device.respond budget env act).next).map Device.id =
      devices.map Device.id := by
  rw [List.map_map]
  exact List.map_congr_left fun device _ => Device.id_respond act device

theorem Distinct.respond {registry : Registry} (h : registry.Distinct) (act : Act) :
    Distinct { registry with
      devices := registry.devices.map fun device => (device.respond budget env act).next } := by
  unfold Distinct
  rw [map_id_respond]
  exact h

/-- A frame goes to each device as if it were alone. -/
theorem yields_dispatchAll (frame : Bytes) (devices : List Device) :
    Expr.Yields budget (dispatchAll env frame devices)
      (devices.flatMap fun device => (device.respond budget env (.frame frame)).change?.toList,
        devices.map fun device => (device.respond budget env (.frame frame)).next)
      (devices.any fun device => (device.respond budget env (.frame frame)).broke) := by
  induction devices with
  | nil => exact Expr.yields_pure _
  | cons device rest ih =>
      intro session hsound hbudget
      obtain ⟨hdelta, hbroken, hmiddle, hkept⟩ :=
        Device.yields_parse? budget env frame device session hsound hbudget
      obtain ⟨hothers, hbreaks, hafter, hend⟩ := ih _ hmiddle hkept
      rw [run_dispatchAll_cons]
      dsimp only
      rw [hothers, hdelta]
      refine ⟨rfl, ?_, hafter, hend⟩
      rw [hbreaks, hbroken, Bool.or_assoc]
      rfl

variable {devices : List Device} {device : Device}

/-- Of what devices give, only what the one of an id gives is left. -/
theorem flatMap_eq_of_mem {β : Type} {f : Device → List β} (hmem : device ∈ devices)
    (hdistinct : (devices.map Device.id).Nodup)
    (hothers : ∀ other, other.id ≠ device.id → f other = []) : devices.flatMap f = f device := by
  induction devices with
  | nil => exact absurd hmem List.not_mem_nil
  | cons first rest ih =>
      rw [List.map_cons] at hdistinct
      obtain ⟨hfresh, hrest⟩ := List.nodup_cons.1 hdistinct
      rw [List.flatMap_cons]
      rcases List.mem_cons.1 hmem with rfl | hlater
      · have hnone : rest.flatMap f = [] := by
          refine List.flatMap_eq_nil_iff.2 fun other hother => hothers other fun hsame => ?_
          exact hfresh (hsame ▸ List.mem_map_of_mem hother)
        rw [hnone, List.append_nil]
      · have hfirst : first.id ≠ device.id := fun hsame =>
          hfresh (hsame ▸ List.mem_map_of_mem hlater)
        rw [hothers first hfirst, ih hlater hrest, List.nil_append]

theorem find?_of_mem (hmem : device ∈ devices) (hdistinct : (devices.map Device.id).Nodup) :
    devices.find? (·.id == device.id) = some device := by
  cases hfind : devices.find? (·.id == device.id) with
  | none => exact absurd (beq_self_eq_true device.id) (List.find?_eq_none.1 hfind device hmem)
  | some found =>
      have hid := List.find?_some hfind
      rw [beq_iff_eq] at hid
      rw [List.inj_on_of_nodup_map hdistinct (List.mem_of_find?_eq_some hfind) hmem hid]

theorem map_eq_self {f : Device → Device} (h : ∀ device ∈ devices, f device = device) :
    devices.map f = devices :=
  calc devices.map f
    _ = devices.map fun device => device := List.map_congr_left h
    _ = devices := List.map_id' devices

/-- So does a command whose implied state is taken over. -/
theorem applyOptimistic_eq {registry : Registry} (h : registry.Distinct) (id command : String)
    (value? : Option Value) :
    ((registry.applyOptimistic id command value?).1.toList,
        (registry.applyOptimistic id command value?).2) =
      (registry.devices.flatMap (fun device =>
          (device.respond budget env (.optimistic id command value?)).change?.toList),
        { registry with
          devices := registry.devices.map fun device =>
            (device.respond budget env (.optimistic id command value?)).next }) := by
  have haside : ∀ other : Device, other.id ≠ id →
      other.respond budget env (.optimistic id command value?) = ⟨none, other, false⟩ :=
    fun other hother => Device.respond_of_not_reaches (beq_eq_false_iff_ne.2 hother)
  unfold applyOptimistic
  cases hfind : registry.find? id with
  | none =>
      have hnone : ∀ other ∈ registry.devices,
          other.respond budget env (.optimistic id command value?) = ⟨none, other, false⟩ := by
        intro other hother
        apply haside
        intro hsame
        exact List.find?_eq_none.1 hfind other hother (beq_iff_eq.2 hsame)
      rw [map_eq_self fun other hother => by rw [hnone other hother],
        List.flatMap_eq_nil_iff.2 fun other hother => by rw [hnone other hother]; rfl]
      rfl
  | some device =>
      obtain rfl : device.id = id := id_of_find? hfind
      have hmem : device ∈ registry.devices := List.mem_of_find?_eq_some hfind
      have hnext : ∀ other ∈ registry.devices,
          (other.respond budget env (.optimistic device.id command value?)).next =
            if other.id == device.id then
              (other.take (device.optimisticDelta? command value?)).2
            else other := by
        intro other hother
        split
        · next hsame =>
          rw [List.inj_on_of_nodup_map h hother hmem (beq_iff_eq.1 hsame),
            Device.respond_optimistic]
        · next hother => rw [haside other fun hsame => hother (beq_iff_eq.2 hsame)]
      rw [flatMap_eq_of_mem hmem h (fun other hother => by rw [haside other hother]; rfl),
        Device.respond_optimistic, List.map_congr_left hnext]
      dsimp only
      cases device.optimisticDelta? command value? with
      | none =>
          have hkept : registry.devices.map (fun other =>
              if other.id == device.id then (other.take none).2 else other) =
                registry.devices := map_eq_self fun other _ => ite_self other
          rw [hkept]
          rfl
      | some delta => rfl

theorem yields_perform {registry : Registry} (h : registry.Distinct) (act : Act) :
    Expr.Yields budget (registry.perform act)
      (registry.devices.flatMap fun device =>
          (device.respond budget registry.env act).change?.toList,
        { registry with
          devices := registry.devices.map fun device =>
            (device.respond budget registry.env act).next })
      (registry.devices.any fun device => (device.respond budget registry.env act).broke) := by
  cases act with
  | frame frame =>
      rw [← Bool.or_false (registry.devices.any _)]
      exact (yields_dispatchAll frame registry.devices).bind (Expr.yields_pure _)
  | optimistic id command value? =>
      have hbroke : (registry.devices.any fun device =>
          (device.respond budget registry.env (.optimistic id command value?)).broke) = false :=
        List.any_eq_false.2 fun _ _ => Bool.false_ne_true
      rw [hbroke, ← applyOptimistic_eq h]
      exact Expr.yields_pure _

theorem any_breaks_cons (act : Act) (rest : List Act) (devices : List Device) :
    devices.any (Device.breaks budget env (act :: rest)) =
      ((devices.any fun device => (device.respond budget env act).broke) ||
        (devices.map fun device => (device.respond budget env act).next).any
          (Device.breaks budget env rest)) := by
  induction devices with
  | nil => rfl
  | cons device others ih =>
      rw [List.any_cons, List.any_cons, List.map_cons, List.any_cons, ih, Device.breaks]
      ac_rfl

/-- What a registry tells, how its devices end and whether an evaluation breaks off is put together
from its devices one by one. -/
theorem yields_performAll {registry : Registry} (h : registry.Distinct) (acts : List Act) :
    Expr.Yields budget (registry.performAll acts)
      (tellings budget registry.env acts registry.devices,
        { registry with devices := registry.devices.map (Device.after budget registry.env acts) })
      (registry.devices.any (Device.breaks budget registry.env acts)) := by
  induction acts generalizing registry with
  | nil =>
      have hbroke : registry.devices.any (Device.breaks budget registry.env []) = false :=
        List.any_eq_false.2 fun _ _ => Bool.false_ne_true
      have hkept : registry.devices.map (Device.after budget registry.env []) = registry.devices :=
        List.map_id _
      rw [hbroke, hkept]
      exact Expr.yields_pure _
  | cons act rest ih =>
      have hafter : registry.devices.map (Device.after budget registry.env (act :: rest)) =
          (registry.devices.map fun device => (device.respond budget registry.env act).next).map
            (Device.after budget registry.env rest) := by
        rw [List.map_map]
        rfl
      rw [any_breaks_cons, hafter, ← Bool.or_false (List.any (List.map _ _) _)]
      exact (yields_perform h act).bind ((ih (h.respond act)).bind (Expr.yields_pure _))

/-! ## Usable entities -/

/-- The devices of the entities before anything reached them. -/
def newDevices (entities : List Entity) : List Device := entities.map fun entity => { entity }

/-- The entities pass their checks, each on its own, and no two have one id. -/
structure Usable (budget : Expr.Budget) (entities : List Entity) : Prop where
  checked : ∀ entity ∈ entities, Expr.Yields budget entity.check (.ok ()) false
  distinct : (entities.map (·.common.id)).Nodup

theorem register_eq (registry : Registry) (entity : Entity) :
    registry.register entity =
      if entity.common.id ∈ registry.devices.map Device.id then
        .error ⟨entity.common.id, .duplicateId⟩
      else .ok { registry with devices := registry.devices ++ newDevices [entity] } := by
  have htaken : (registry.find? entity.common.id).isSome = true ↔
      entity.common.id ∈ registry.devices.map Device.id := by
    unfold find?
    rw [List.find?_isSome, List.mem_map]
    exact exists_congr fun device => and_congr_right fun _ => beq_iff_eq
  unfold register
  dsimp only
  by_cases h : entity.common.id ∈ registry.devices.map Device.id
  · rw [if_pos (htaken.2 h), if_pos h]
  · rw [if_neg (htaken.not.2 h), if_neg h]
    rfl

section

variable {registry next : Registry} {entity : Entity} {rest : List Entity} {error : EntityError}
  {result : Except EntityError Registry}

theorem yields_registerAll_of_rejected (h : Expr.Yields budget entity.check (.error error) false) :
    Expr.Yields budget (registry.registerAll (entity :: rest)) (.error error) false := by
  refine Expr.Yields.bind h ?_
  exact Expr.yields_pure _

theorem yields_registerAll_of_refused (h : Expr.Yields budget entity.check (.ok ()) false)
    (hregister : registry.register entity = .error error) :
    Expr.Yields budget (registry.registerAll (entity :: rest)) (.error error) false := by
  refine Expr.Yields.bind h ?_
  dsimp only
  rw [hregister]
  exact Expr.yields_pure _

theorem yields_registerAll_of_registered (h : Expr.Yields budget entity.check (.ok ()) false)
    (hregister : registry.register entity = .ok next)
    (hrest : Expr.Yields budget (next.registerAll rest) result false) :
    Expr.Yields budget (registry.registerAll (entity :: rest)) result false := by
  refine Expr.Yields.bind h ?_
  dsimp only
  rw [hregister]
  exact hrest

end

/-- Entities are registered if each passes its check and no id is taken twice. -/
theorem yields_registerAll (budget : Expr.Budget) {registry : Registry} (h : registry.Distinct)
    (entities : List Entity) :
    ∃ result, Expr.Yields budget (registry.registerAll entities) result false ∧
      ∀ final, result = .ok final ↔
        (∀ entity ∈ entities, Expr.Yields budget entity.check (.ok ()) false) ∧
          (registry.devices.map Device.id ++ entities.map (·.common.id)).Nodup ∧
          final = { registry with devices := registry.devices ++ newDevices entities } := by
  induction entities generalizing registry with
  | nil =>
      refine ⟨.ok registry, Expr.yields_pure _, fun final => ?_⟩
      have hkept : registry.devices ++ newDevices [] = registry.devices := List.append_nil _
      rw [hkept, List.map_nil, List.append_nil]
      constructor
      · intro hfinal
        exact ⟨fun _ hnone => absurd hnone List.not_mem_nil, h, (Except.ok.inj hfinal).symm⟩
      · rintro ⟨-, -, rfl⟩
        rfl
  | cons entity rest ih =>
      obtain ⟨verdict, hverdict⟩ := entity.yields_check budget
      cases verdict with
      | error error =>
          refine ⟨_, yields_registerAll_of_rejected hverdict, fun final => iff_of_false nofun ?_⟩
          rintro ⟨hchecked, -⟩
          exact nomatch (hverdict.unique (hchecked entity List.mem_cons_self)).1
      | ok _ =>
          by_cases htaken : entity.common.id ∈ registry.devices.map Device.id
          · have hregister := (register_eq registry entity).trans (if_pos htaken)
            refine ⟨_, yields_registerAll_of_refused hverdict hregister,
              fun final => iff_of_false nofun ?_⟩
            rintro ⟨-, hdistinct, -⟩
            exact (List.nodup_append.1 hdistinct).2.2 _ htaken _ List.mem_cons_self rfl
          · have hregister := (register_eq registry entity).trans (if_neg htaken)
            have hids : (registry.devices ++ newDevices [entity]).map Device.id =
                registry.devices.map Device.id ++ [entity.common.id] := List.map_append
            have hgrown : Distinct { registry with
                devices := registry.devices ++ newDevices [entity] } := by
              unfold Distinct
              rw [hids, ← List.concat_eq_append]
              exact List.Nodup.concat htaken h
            obtain ⟨result, hresult, hfinal⟩ := ih hgrown
            refine ⟨result, yields_registerAll_of_registered hverdict hregister hresult,
              fun final => (hfinal final).trans ?_⟩
            rw [hids, List.append_assoc, List.append_assoc, List.forall_mem_cons]
            exact and_congr_left' (iff_and_self.2 fun _ => hverdict)

/-- A registry is made of the entities exactly if they are usable. -/
theorem yields_ofEntities (budget : Expr.Budget) (env : DeviceEnv) (entities : List Entity) :
    ∃ result, Expr.Yields budget (ofEntities env entities) result false ∧
      ∀ registry, result = .ok registry ↔
        Usable budget entities ∧ registry = { env, devices := newDevices entities } := by
  have hempty : Distinct { env } := List.nodup_nil
  obtain ⟨result, hresult, hfinal⟩ := yields_registerAll budget hempty entities
  refine ⟨result, hresult, fun registry => (hfinal registry).trans ?_⟩
  rw [← and_assoc]
  exact and_congr_left' ⟨fun h => ⟨h.1, h.2⟩, fun h => ⟨h.checked, h.distinct⟩⟩

end Registry

end PanelBus
