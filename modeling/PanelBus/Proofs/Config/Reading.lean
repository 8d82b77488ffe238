import Mathlib.Tactic.Simproc.ExistsAndEq
import PanelBus.Proofs.Binary64
import PanelBus.Proofs.Config.RoundTrip
/-!
# What reading gives

Whatever is read from a well-formed value is a well-formed configuration, so that it can be written
and read again.  The configuration is the same then, and is written in the same way once more.
-/

namespace PanelBus.Config

open Json (Value Fields)

variable {α β : Type} {fields : Fields}

/-! ## Single values -/

theorem gives_nat (bound : Nat) : Gives (readNat bound) (· < bound) := by
  intro v n hv hread
  unfold readNat at hread
  split at hread
  · split at hread
    · split at hread
      · next hbound =>
        rw [← Except.ok.inj hread]
        exact hbound
      · cases hread
    · cases hread
  · cases hread

theorem gives_size : Gives readSize (· < Word.count) := gives_nat Word.count

theorem gives_binary64 : Gives readBinary64 (·.isFinite = true) := by
  intro v x hv hread
  cases hv with
  | null | bool | str | arr | obj => cases hread
  | float h =>
      rw [← Except.ok.inj hread]
      exact h
  | @int n hlow hhigh =>
      have hsize : n.natAbs < 2 ^ 64 := by
        have hleast : Word.least = -2 ^ 63 := by decide
        have hcount : (Word.count : Int) = 2 ^ 64 := by decide
        omega
      rw [← Except.ok.inj hread]
      exact Binary64.isFinite_ofRatio _ _ hsize (by decide)

theorem forall_of_mapM_eq_ok {read : α → Result β} {P : β → Prop} {items : List α}
    {results : List β} (h : items.mapM read = .ok results)
    (hitems : ∀ item ∈ items, ∀ b, read item = .ok b → P b) : ∀ b ∈ results, P b := by
  rw [mapM_eq_ok_iff] at h
  induction h with
  | nil => exact nofun
  | @cons item b rest more hread _ ih =>
      obtain ⟨hfirst, hrest⟩ := List.forall_mem_cons.1 hitems
      exact List.forall_mem_cons.2 ⟨hfirst b hread, ih hrest⟩

theorem gives_list {read : Value → Result α} {P : α → Prop} (h : Gives read P) :
    Gives (readList read) fun items => ∀ a ∈ items, P a := by
  intro v results hv hread
  cases hv with
  | null | bool | int | float | str | obj => cases hread
  | @arr items hitems =>
      exact forall_of_mapM_eq_ok hread fun item hmem a ha => h item a (hitems item hmem) ha

/-- The names of texts are those of the members. -/
theorem names_of_texts {entries : Fields} {texts : NameMap String}
    (h : readTexts (.obj entries) = .ok texts) : entries.map Prod.fst = texts.map Prod.fst := by
  change entries.mapM _ = _ at h
  rw [mapM_eq_ok_iff] at h
  rw [← List.forall₂_eq_eq_eq, List.forall₂_map_left_iff, List.forall₂_map_right_iff]
  refine h.imp fun (key, value) text hread => ?_
  dsimp only at hread
  cases hvalue : readText value with
  | error error =>
      rw [hvalue] at hread
      cases hread
  | ok s =>
      rw [hvalue] at hread
      rw [← Except.ok.inj hread]

theorem gives_texts : Gives readTexts NameMap.Rising := by
  intro v texts hv hread
  cases hv with
  | null | bool | int | float | str | arr => cases hread
  | obj hrising hentries =>
      have hnames := names_of_texts hread
      unfold NameMap.Rising at hrising ⊢
      rw [← List.pairwise_map, ← hnames, List.pairwise_map]
      exact hrising

/-! ## Records -/

theorem gives_retry : Gives readRetry RetryPolicy.WellFormed := by
  refine gives_record fun fields retry hfields hbuild => ?_
  simp only [Checked.seq_eq_ok_iff, Checked.map_eq_ok_iff, existsAndEq, and_true] at hbuild
  obtain ⟨attempts, timeout, ⟨hattempts, htimeout⟩, interval, hinterval, rfl⟩ := hbuild
  exact
    { attempts := (gives_nat _).member (by decide) hfields hattempts
      timeout := gives_size.member (by decide) hfields htimeout
      interval := gives_size.member (by decide) hfields hinterval }

theorem gives_settings : Gives readSettings LineSettings.WellFormed := by
  refine gives_record fun fields settings hfields hbuild => ?_
  simp only [Checked.seq_eq_ok_iff, Checked.map_eq_ok_iff, existsAndEq, and_true,
    and_assoc] at hbuild
  obtain ⟨_, _, _, _, _, _, _, _, _, _, _, _, _, -, -, hlength, hleast, hgreatest, -, -, htimeout,
    -, -, -, -, hdelay, _, hretry, rfl⟩ := hbuild
  have hsize := fun {key size?} (hread : optional fields key readSize = .ok size?) =>
    gives_size.optional hfields hread
  refine ⟨?_, gives_retry.optional hfields hretry⟩
  simp only [List.forall_mem_cons]
  exact ⟨hsize hlength, hsize hleast, hsize hgreatest, hsize htimeout, hsize hdelay, nofun⟩

/-! ## Patterns -/

theorem of_patternOf {except : Result (List Pattern)} {pattern : Pattern}
    (hfields : MembersWellFormed fields) (h : patternOf except fields = .ok pattern) :
    pattern.offset < Word.count ∧ except = .ok pattern.except := by
  unfold patternOf at h
  simp only [Checked.seq_eq_ok_iff, Checked.map_eq_ok_iff, existsAndEq, and_true, and_assoc,
    Checked.ofResult_eq_ok_iff] at h
  obtain ⟨_, _, _, _, _, hoffset, -, -, -, -, _, hexcept, rfl⟩ := h
  exact ⟨gives_size.member (by decide) hfields hoffset, hexcept⟩

theorem exceptItem_eq (n : Nat) (items : List Value) :
    exceptItem n items = items[n]?.elim (.ok []) readPatterns := by
  induction items generalizing n with
  | nil => rw [exceptItem, List.getElem?_nil, Option.elim_none]
  | cons v rest ih =>
      cases n with
      | zero => rfl
      | succ n => rw [exceptItem, ih, List.getElem?_cons_succ]

theorem forall_of_elim_readPatterns {v? : Option Value} {P : Pattern → Prop}
    {patterns : List Pattern} (h : v?.elim (.ok []) readPatterns = .ok patterns)
    (hpatterns : ∀ v ∈ v?, readPatterns v = .ok patterns → ∀ pattern ∈ patterns, P pattern) :
    ∀ pattern ∈ patterns, P pattern := by
  cases v? with
  | none =>
      obtain rfl : [] = patterns := Except.ok.inj h
      exact nofun
  | some v => exact hpatterns v rfl h

/-- A pattern may stand in an exception of another one, which is a member of its object or an item
of its list, so that the lists of patterns are followed at the same time. -/
theorem wellFormed_of_readPattern {v : Value} (hv : v.WellFormed) :
    (∀ pattern, readPattern v = .ok pattern → pattern.WellFormed) ∧
      ∀ patterns, readPatterns v = .ok patterns → ∀ pattern ∈ patterns, pattern.WellFormed := by
  induction hv with
  | null | bool | int | float | str =>
      refine ⟨fun pattern h => ?_, fun patterns h => by cases h⟩
      rw [readPattern] at h
      · cases h
      all_goals
        intro _ hother
        cases hother
  | @arr items hitems ih =>
      refine ⟨fun pattern h => ?_, fun patterns h => ?_⟩
      · rw [readPattern] at h
        obtain ⟨fields, hbuild, hfields⟩ := exists_of_record h
        obtain ⟨hoffset, hexcept⟩ := of_patternOf (hfields (.arr hitems)) hbuild
        rw [exceptItem_eq] at hexcept
        refine .intro hoffset (forall_of_elim_readPatterns hexcept fun v hmem hread => ?_)
        exact (ih v (List.mem_of_getElem? hmem)).2 _ hread
      · rw [readPatterns, readPatternItems_eq_mapM] at h
        exact forall_of_mapM_eq_ok h fun item hmem => (ih item hmem).1
  | @obj entries hrising hentries ih =>
      refine ⟨fun pattern h => ?_, fun patterns h => by cases h⟩
      rw [readPattern] at h
      obtain ⟨fields, hbuild, hfields⟩ := exists_of_record h
      obtain ⟨hoffset, hexcept⟩ := of_patternOf (hfields (.obj hrising hentries)) hbuild
      rw [exceptEntry_eq] at hexcept
      refine .intro hoffset (forall_of_elim_readPatterns hexcept fun v hmem hread => ?_)
      exact (ih _ (NameMap.mem_of_get? hmem)).2 _ hread

theorem gives_pattern : Gives readPattern Pattern.WellFormed :=
  fun _ pattern hv hread => (wellFormed_of_readPattern hv).1 pattern hread

/-! ## Number fields and commands -/

theorem gives_number (place : Place) : Gives (readNumber place) NumberField.WellFormed := by
  refine gives_record fun fields number hfields hbuild => ?_
  simp only [Checked.seq_eq_ok_iff, Checked.map_eq_ok_iff, existsAndEq, and_true,
    and_assoc] at hbuild
  obtain ⟨_, _, _, _, _, _, hoffset, hlength, -, -, -, hprecision, _, hmapping, rfl⟩ := hbuild
  exact
    { offset := gives_size.member (by decide) hfields hoffset
      length := gives_size.member (by decide) hfields hlength
      precision := (gives_nat _).member (by decide) hfields hprecision
      mapping := gives_texts.member NameMap.rising_nil hfields hmapping }

theorem gives_command (place : Place) : Gives (readCommand place) Command.WellFormed := by
  refine gives_record fun fields command hfields hbuild => ?_
  simp only [Checked.seq_eq_ok_iff, Checked.map_eq_ok_iff, existsAndEq, and_true,
    and_assoc] at hbuild
  obtain ⟨_, _, _, _, _, _, -, hoffset, hlength, -, -, hmultiply, _, -, rfl⟩ := hbuild
  exact
    { valueOffset := gives_size.optional hfields hoffset
      length := gives_size.member (by decide) hfields hlength
      multiply := gives_binary64.optional hfields hmultiply }

/-! ## Entities -/

theorem wellFormed_of_featuresOf {kind : EntityKind} {features : Features}
    (hfields : MembersWellFormed fields) (h : featuresOf fields kind = .ok features) :
    features.WellFormed := by
  have hpattern := fun {key pattern?} (hread : patternPart fields key = .ok pattern?) =>
    gives_pattern.optional hfields hread
  have hnumber := fun {key number?} (hread : numberPart fields key = .ok number?) =>
    (gives_number .entity).optional hfields hread
  have hcommand := fun {key command?} (hread : commandPart fields key = .ok command?) =>
    (gives_command .entity).optional hfields hread
  suffices hparts : (∀ pattern? ∈ features.patterns, ∀ pattern ∈ pattern?, pattern.WellFormed) ∧
      (∀ role ∈ features.numbers, ∀ number ∈ role.number?, number.WellFormed) ∧
      ∀ entry ∈ features.commands, ∀ command ∈ entry.2, command.WellFormed by
    exact ⟨hparts.1, hparts.2.1, hparts.2.2⟩
  unfold featuresOf at h
  cases kind <;>
    simp only [Checked.seq_eq_ok_iff, Checked.map_eq_ok_iff, existsAndEq, and_true,
      and_assoc] at h
  case light =>
      obtain ⟨_, _, _, _, _, hon, hoff, hbrightness, hturnOn, hturnOff, _, hsetBrightness, rfl⟩ :=
        h
      simp only [Features.patterns, Features.numbers, Features.commands, List.forall_mem_cons]
      refine ⟨⟨hpattern hon, hpattern hoff, List.forall_mem_nil _⟩,
        ⟨hnumber hbrightness, List.forall_mem_nil _⟩, ?_⟩
      exact ⟨hcommand hturnOn, hcommand hturnOff, hcommand hsetBrightness, List.forall_mem_nil _⟩
  case switch =>
      obtain ⟨_, _, _, hon, hoff, hturnOn, _, hturnOff, rfl⟩ := h
      simp only [Features.patterns, Features.numbers, Features.commands, List.forall_mem_cons]
      refine ⟨⟨hpattern hon, hpattern hoff, List.forall_mem_nil _⟩, List.forall_mem_nil _, ?_⟩
      exact ⟨hcommand hturnOn, hcommand hturnOff, List.forall_mem_nil _⟩
  case binarySensor =>
      obtain ⟨_, hon, _, hoff, rfl⟩ := h
      simp only [Features.patterns, Features.numbers, Features.commands, List.forall_mem_cons]
      exact ⟨⟨hpattern hon, hpattern hoff, List.forall_mem_nil _⟩, List.forall_mem_nil _,
        List.forall_mem_nil _⟩
  case fan =>
      obtain ⟨_, _, _, _, _, hon, hoff, hspeed, hturnOn, hturnOff, _, hsetSpeed, rfl⟩ := h
      simp only [Features.patterns, Features.numbers, Features.commands, List.forall_mem_cons]
      refine ⟨⟨hpattern hon, hpattern hoff, List.forall_mem_nil _⟩,
        ⟨hnumber hspeed, List.forall_mem_nil _⟩, ?_⟩
      exact ⟨hcommand hturnOn, hcommand hturnOff, hcommand hsetSpeed, List.forall_mem_nil _⟩
  case valve =>
      obtain ⟨_, _, _, hisOpen, hisClosed, hopenUp, _, hclose, rfl⟩ := h
      simp only [Features.patterns, Features.numbers, Features.commands, List.forall_mem_cons]
      refine ⟨⟨hpattern hisOpen, hpattern hisClosed, List.forall_mem_nil _⟩,
        List.forall_mem_nil _, ?_⟩
      exact ⟨hcommand hopenUp, hcommand hclose, List.forall_mem_nil _⟩
  case climate =>
      obtain ⟨_, _, _, _, _, _, _, _, hoff, hheat, hcool, hcurrent, htarget, hturnOff, hstartHeat,
        hstartCool, _, hsetTarget, rfl⟩ := h
      simp only [Features.patterns, Features.numbers, Features.commands, List.forall_mem_cons]
      refine ⟨⟨hpattern hoff, hpattern hheat, hpattern hcool, List.forall_mem_nil _⟩,
        ⟨hnumber hcurrent, hnumber htarget, List.forall_mem_nil _⟩, ?_⟩
      exact ⟨hcommand hturnOff, hcommand hstartHeat, hcommand hstartCool, hcommand hsetTarget,
        List.forall_mem_nil _⟩
  case sensor =>
      obtain ⟨_, hvalue, rfl⟩ := h
      simp only [Features.patterns, Features.numbers, Features.commands, List.forall_mem_cons]
      exact ⟨List.forall_mem_nil _, ⟨hnumber hvalue, List.forall_mem_nil _⟩, List.forall_mem_nil _⟩
  case button =>
      obtain ⟨_, hpress, rfl⟩ := h
      simp only [Features.patterns, Features.numbers, Features.commands, List.forall_mem_cons]
      exact ⟨List.forall_mem_nil _, List.forall_mem_nil _, hcommand hpress, List.forall_mem_nil _⟩

theorem wellFormed_of_commonOf {common : EntityCommon} (hfields : MembersWellFormed fields)
    (h : commonOf fields = .ok common) : common.WellFormed := by
  unfold commonOf at h
  simp only [Checked.seq_eq_ok_iff, Checked.map_eq_ok_iff, existsAndEq, and_true, and_assoc] at h
  obtain ⟨_, _, _, _, _, _, -, -, hstate, hlambdas, hupdate, -, _, hretry, rfl⟩ := h
  exact
    { state := gives_pattern.optional hfields hstate
      stateLambdas := gives_texts.member NameMap.rising_nil hfields hlambdas
      update := (gives_command .entity).optional hfields hupdate
      retry := gives_retry.optional hfields hretry }

theorem gives_entity : Gives readEntity Entity.WellFormed := by
  intro v entity hv hread
  cases hv with
  | null | bool | int | float | str | arr => cases hread
  | @obj fields hrising hentries =>
      unfold readEntity at hread
      dsimp only at hread
      obtain ⟨kind, -, hread⟩ := bind_eq_ok_iff.1 hread
      obtain ⟨features, hfeatures, hread⟩ := bind_eq_ok_iff.1 hread
      obtain ⟨common, hcommon, hread⟩ := bind_eq_ok_iff.1 hread
      obtain rfl := Except.ok.inj hread
      exact
        { common := wellFormed_of_commonOf hentries (Checked.resolve_eq_ok_iff.1 hcommon)
          features := wellFormed_of_featuresOf hentries (Checked.resolve_eq_ok_iff.1 hfeatures) }

/-! ## Gateways -/

theorem wellFormed_defaultSettings : LineSettings.WellFormed {} where
  sizes := by simp
  retry := nofun

theorem gives_gateway : Gives readGateway GatewayConfig.WellFormed := by
  refine gives_record fun fields config hfields hbuild => ?_
  simp only [Checked.seq_eq_ok_iff, Checked.map_eq_ok_iff, existsAndEq, and_true,
    and_assoc] at hbuild
  obtain ⟨_, _, -, hsettings, _, hentities, rfl⟩ := hbuild
  have hnone : ∀ entity ∈ ([] : List Entity), entity.WellFormed :=
    fun _ hmem => absurd hmem List.not_mem_nil
  exact
    { settings := gives_settings.member wellFormed_defaultSettings hfields hsettings
      entities := (gives_list gives_entity).member hnone hfields hentities }

/-- Every configuration is read again from the data value that is written for it.  Whatever is read
from a data value is a configuration that is read again in this way, and the same data value is
written for it once more. -/
theorem config_round_trip :
    (∀ config : GatewayConfig, config.WellFormed →
      (writeGateway config).WellFormed ∧ readGateway (writeGateway config) = .ok config) ∧
    ∀ (v : Value) (config : GatewayConfig), v.WellFormed → readGateway v = .ok config →
      config.WellFormed ∧ (writeGateway config).WellFormed ∧
      ∃ again, readGateway (writeGateway config) = .ok again ∧ again = config ∧
        writeGateway again = writeGateway config := by
  constructor
  · intro config hconfig
    have hregains := regains_gateway hconfig
    exact ⟨hregains.wellFormed, hregains.read_write⟩
  · intro v config hv hread
    have hconfig : config.WellFormed := gives_gateway v config hv hread
    have hregains := regains_gateway hconfig
    exact ⟨hconfig, hregains.wellFormed, config, hregains.read_write, rfl, rfl⟩

/-- A lamp with an exception of an exception, masks of both forms and a factor. -/
def bathhouse : GatewayConfig where
  id := "bath"
  settings := { rxHeader := [0xF7], rxTimeout? := some 100, retryPolicy? := some { attempts := 3 } }
  entities :=
    [{ common :=
        { id := "lamp"
          state? := some
            { data := [0x0E, 0x01]
              mask? := some (.perOctet [none, some 0x0F])
              except := [{ except := [{ offset := 2, mask? := some (.uniform 0xF0) }] }] }
          stateLambdas := [("warm", "data[3]")] }
       features := .light
        { brightness? := some { offset := 2, mapping := [("1", "low"), ("10", "high")] }
          setBrightness? := some { multiply? := some (.ofRatio false 51 20) } } }]

theorem wellFormed_bathhouse : bathhouse.WellFormed := by
  have hdeep : Pattern.WellFormed { offset := 2, mask? := some (.uniform 0xF0) } :=
    .intro (by decide) (List.forall_mem_nil _)
  have hnone : ∀ {α : Type} {P : α → Prop}, ∀ a ∈ (none : Option α), P a := by
    intro α P a ha
    cases ha
  refine ⟨⟨by decide, ?_⟩, List.forall_mem_singleton.2 ⟨⟨?_, ?_, hnone, hnone⟩, ⟨?_, ?_, ?_⟩⟩⟩
  · rintro _ ⟨⟩
    exact ⟨by decide, by decide, by decide⟩
  · rintro _ ⟨⟩
    refine .intro (by decide) (List.forall_mem_singleton.2 ?_)
    exact .intro (by decide) (List.forall_mem_singleton.2 hdeep)
  · exact List.pairwise_singleton _ _
  · simp [Features.patterns]
  · refine List.forall_mem_singleton.2 ?_
    rintro _ ⟨⟩
    exact ⟨by decide, by decide, by decide, List.pairwise_pair.2 (by decide)⟩
  · simp only [Features.commands, List.forall_mem_cons]
    refine ⟨hnone, hnone, ?_, List.forall_mem_nil _⟩
    rintro _ ⟨⟩
    refine ⟨hnone, by decide, ?_⟩
    rintro _ ⟨⟩
    decide +kernel

/-- Octets as texts, a pattern as the list of its members, a name as the key of an object, a factor
as a whole number and a name that no member has. -/
def laxBathhouse : Value :=
  .ofEntries
    [("packet_defaults",
      .ofEntries [("rx_header", .arr [.str " 0xf7", .str "+14"]), ("rx_length", .null)]),
     ("entities", .arr
      [.ofEntries
        [("type", .str "fan"), ("id", .str "vent"), ("colour", .str "white"),
         ("state_on", .arr [.nat 1, .arr [.str "0X1F"]]),
         ("state_speed", .ofEntries [("endian", .ofEntries [("little", .null)])]),
         ("command_speed", .ofEntries [("multiply", .nat 3)])]])]

theorem wellFormed_laxBathhouse : laxBathhouse.WellFormed := by
  have hone : (Value.nat 1).WellFormed := Value.wellFormed_nat (by decide)
  have hthree : (Value.nat 3).WellFormed := Value.wellFormed_nat (by decide)
  have horder : (Value.ofEntries [("little", .null)]).WellFormed :=
    Value.wellFormed_ofEntries (List.forall_mem_singleton.2 .null)
  have hheader : (Value.arr [.str " 0xf7", .str "+14"]).WellFormed :=
    .arr (List.forall_mem_cons.2 ⟨.str _, List.forall_mem_singleton.2 (.str _)⟩)
  have hpattern : (Value.arr [.nat 1, .arr [.str "0X1F"]]).WellFormed := by
    refine .arr (List.forall_mem_cons.2 ⟨hone, List.forall_mem_singleton.2 (.arr ?_)⟩)
    exact List.forall_mem_singleton.2 (.str _)
  refine Value.wellFormed_ofEntries ?_
  simp only [List.forall_mem_cons]
  refine ⟨Value.wellFormed_ofEntries ?_, .arr ?_, nofun⟩
  · exact List.forall_mem_cons.2 ⟨hheader, List.forall_mem_singleton.2 .null⟩
  · refine List.forall_mem_singleton.2 (Value.wellFormed_ofEntries ?_)
    simp only [List.forall_mem_cons]
    exact ⟨.str _, .str _, .str _, hpattern,
      Value.wellFormed_ofEntries (List.forall_mem_singleton.2 horder),
      Value.wellFormed_ofEntries (List.forall_mem_singleton.2 hthree), nofun⟩

theorem config_round_trip_bathhouse :
    bathhouse.WellFormed ∧ readGateway (writeGateway bathhouse) = .ok bathhouse ∧
    laxBathhouse.WellFormed ∧ ∃ config, readGateway laxBathhouse = .ok config ∧
      readGateway (writeGateway config) = .ok config := by
  have hlax := wellFormed_laxBathhouse
  have hread : (readGateway laxBathhouse).isOk = true := by decide +kernel
  refine ⟨wellFormed_bathhouse, ?_, hlax, ?_⟩
  · exact (config_round_trip.1 bathhouse wellFormed_bathhouse).2
  · cases hconfig : readGateway laxBathhouse with
    | error error =>
        rw [hconfig] at hread
        cases hread
    | ok config =>
        obtain ⟨-, -, again, hagain, rfl, -⟩ := config_round_trip.2 laxBathhouse config hlax hconfig
        exact ⟨again, rfl, hagain⟩

end PanelBus.Config
