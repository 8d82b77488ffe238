import Mathlib
import PanelBus.Proofs.Line.Accepted
/-!
# Which settings are accepted

Settings describe a line exactly when each direction names one known check at most and the lengths
ask for exactly one framing that has room for data and fits the buffer.  The line is then the one
that the settings say.
-/

namespace PanelBus

/-! ## Checks by name -/

/-- No check with one octet is named; the name `none` counts as absent. -/
def Checksum.Single.Unnamed (one? : Option String) : Prop := one? = none ∨ one? = some "none"

/-- The check that the two selectors of a direction name: at most one of them names one, and by a
name that is known. -/
inductive Checksum.Named : Option String → Option String → Checksum → Prop where
  | unchecked {one? : Option String} (h : Single.Unnamed one?) : Named one? none .unchecked
  | single (kind : Single) : Named (some kind.name) none (.single kind)
  | double {one? : Option String} (h : Single.Unnamed one?) (kind : Double) :
    Named one? (some kind.name) (.double kind)

namespace Checksum

variable {one? two? : Option String} {checksum : Checksum} {name : String}

theorem eq_name_of_find? {κ : Type} {nameOf : κ → String} {all : List κ} {found : κ}
    (h : all.find? (nameOf · == name) = some found) : name = nameOf found := by
  have hfound := List.find?_some h
  exact (eq_of_beq hfound).symm

theorem Single.ofName_eq_ok_iff {kind : Single} : ofName name = .ok kind ↔ name = kind.name := by
  unfold ofName
  constructor
  · intro h
    split at h
    · next hfound =>
      cases h
      exact eq_name_of_find? hfound
    · cases h
  · rintro rfl
    cases kind <;> rfl

theorem Double.ofName_eq_ok_iff {kind : Double} : ofName name = .ok kind ↔ name = kind.name := by
  unfold ofName
  constructor
  · intro h
    split at h
    · next hfound =>
      cases h
      exact eq_name_of_find? hfound
    · cases h
  · rintro rfl
    cases kind <;> rfl

theorem mapM_eq_ok_none {α : Type} {read : String → Except SelectError α}
    (h : one?.mapM read = .ok none) : one? = none := by
  cases one? with
  | none => rfl
  | some name =>
      cases hread : read name <;> simp [Option.mapM, hread, Functor.map, Except.map] at h

theorem mapM_eq_ok_some {α : Type} {read : String → Except SelectError α} {a : α}
    (h : one?.mapM read = .ok (some a)) : ∃ name, one? = some name ∧ read name = .ok a := by
  cases one? with
  | none => cases h
  | some name =>
      cases hread : read name with
      | error error => simp [Option.mapM, hread, Functor.map, Except.map] at h
      | ok b =>
          simp [Option.mapM, hread, Functor.map, Except.map] at h
          exact ⟨name, rfl, h ▸ hread⟩

theorem unnamed_of_filter (h : one?.filter (· != "none") = none) : Single.Unnamed one? := by
  cases one? with
  | none => exact .inl rfl
  | some name =>
      have hname : name = "none" := by simpa [Option.filter] using h
      exact .inr (congrArg some hname)

theorem select_eq_ok_iff : select one? two? = .ok checksum ↔ Named one? two? checksum := by
  constructor
  · intro h
    unfold select at h
    cases hone : (one?.filter (· != "none")).mapM Single.ofName with
    | error error => simp [hone, bind, Except.bind] at h
    | ok one =>
    cases htwo : two?.mapM Double.ofName with
    | error error => simp [hone, htwo, bind, Except.bind] at h
    | ok two =>
    simp only [hone, htwo, bind, Except.bind] at h
    cases one with
    | none =>
        have hunnamed := unnamed_of_filter (mapM_eq_ok_none hone)
        cases two with
        | none =>
            cases h
            rw [mapM_eq_ok_none htwo]
            exact .unchecked hunnamed
        | some kind =>
            cases h
            obtain ⟨name, rfl, hname⟩ := mapM_eq_ok_some htwo
            rw [Double.ofName_eq_ok_iff.mp hname]
            exact .double hunnamed kind
    | some kind =>
        obtain ⟨name, hfilter, hname⟩ := mapM_eq_ok_some hone
        cases two with
        | none =>
            cases h
            rw [mapM_eq_ok_none htwo, (Option.filter_eq_some_iff.mp hfilter).1,
              Single.ofName_eq_ok_iff.mp hname]
            exact .single kind
        | some other => cases h
  · rintro (hunnamed | kind | ⟨hunnamed, kind⟩)
    · rcases hunnamed with rfl | rfl <;> rfl
    · cases kind <;> rfl
    · rcases hunnamed with rfl | rfl <;> cases kind <;> rfl

end Checksum

/-! ## Framings -/

/-- The length of the longest frame that is looked for; of frames that end with a footer, the length
of the shortest one with data. -/
def Framing.longest (overhead : Nat) : Framing → Nat
  | .fixed length => length
  | .footer => overhead + 1
  | .sweep _ greatest => greatest

/-- The settings ask for this framing: they give its lengths and no others, there is room for data
besides header, checksum and footer, and 256 octets hold a frame. -/
def LineSettings.AsksFor (settings : LineSettings) (checksum : Checksum) (framing : Framing) :
    Prop :=
  let overhead := settings.rxHeader.length + checksum.width + settings.rxFooter.length
  match framing with
  | .fixed length =>
    (settings.rxLength? = some length ∧ settings.rxMinLength? = none ∧
      settings.rxMaxLength? = none) ∧ overhead < length ∧ length ≤ 256
  | .sweep least greatest =>
    (settings.rxLength? = none ∧ settings.rxMinLength? = some least ∧
      settings.rxMaxLength? = some greatest) ∧ checksum ≠ .unchecked ∧
      overhead < least ∧ least ≤ greatest ∧ greatest ≤ 256
  | .footer =>
    (settings.rxLength? = none ∧ settings.rxMinLength? = none ∧ settings.rxMaxLength? = none) ∧
      settings.rxFooter ≠ [] ∧ overhead < 256

namespace Line

variable {settings : LineSettings} {checksum : Checksum} {framing other : Framing}

/-- The lengths given tell the framings apart. -/
theorem asksFor_unique (h : settings.AsksFor checksum framing)
    (hother : settings.AsksFor checksum other) : framing = other := by
  unfold LineSettings.AsksFor at h hother
  cases framing <;> cases other <;> simp_all

theorem asksFor_of_selectFraming
    (h : selectFraming settings checksum
      (settings.rxHeader.length + checksum.width + settings.rxFooter.length) = .ok framing)
    (hlong : framing.longest
      (settings.rxHeader.length + checksum.width + settings.rxFooter.length) ≤ 256) :
    settings.AsksFor checksum framing := by
  have hfits := fits_of_selectFraming h
  unfold selectFraming at h
  split at h
  · cases h
  · cases h
  · next length hlength hleast hgreatest =>
    split at h
    · cases h
    · cases h
      exact ⟨⟨hlength, hleast, hgreatest⟩, hfits, hlong⟩
  · next least greatest hlength hleast hgreatest =>
    split at h
    · cases h
    · split at h
      · cases h
      · split at h
        · cases h
        · cases h
          obtain ⟨hchecked, hroom, horder⟩ := hfits
          exact ⟨⟨hlength, hleast, hgreatest⟩, hchecked, hroom, horder, hlong⟩
  · cases h
  · cases h
  · next hlength hleast hgreatest =>
    split at h
    · cases h
    · cases h
      exact ⟨⟨hlength, hleast, hgreatest⟩, hfits, Nat.lt_of_succ_le hlong⟩

theorem selectFraming_of_asksFor (h : settings.AsksFor checksum framing) :
    selectFraming settings checksum
        (settings.rxHeader.length + checksum.width + settings.rxFooter.length) = .ok framing ∧
      framing.longest
        (settings.rxHeader.length + checksum.width + settings.rxFooter.length) ≤ 256 := by
  unfold LineSettings.AsksFor at h
  unfold selectFraming
  cases framing with
  | fixed length =>
      obtain ⟨⟨hlength, hleast, hgreatest⟩, hroom, hlong⟩ := h
      rw [hlength, hleast, hgreatest]
      exact ⟨if_neg (Nat.not_le.mpr hroom), hlong⟩
  | footer =>
      obtain ⟨⟨hlength, hleast, hgreatest⟩, hfooter, hlong⟩ := h
      rw [hlength, hleast, hgreatest]
      exact ⟨if_neg (by simpa using hfooter), hlong⟩
  | sweep least greatest =>
      obtain ⟨⟨hlength, hleast, hgreatest⟩, hchecked, hroom, horder, hlong⟩ := h
      rw [hlength, hleast, hgreatest]
      dsimp only
      rw [if_neg hchecked, if_neg (Nat.not_lt.mpr horder), if_neg (Nat.not_le.mpr hroom)]
      exact ⟨rfl, hlong⟩

theorem withCapacity_eq_ok_iff {line wider : Line} {capacity : Nat} :
    line.withCapacity capacity = .ok wider ↔
      line.rx.needed ≤ capacity ∧ wider = { line with rx := { line.rx with capacity } } := by
  refine ⟨of_withCapacity, ?_⟩
  rintro ⟨hroom, rfl⟩
  exact if_neg (Nat.not_lt.mpr hroom)

theorem ofSettings_eq_ok_iff {line : Line} : ofSettings settings = .ok line ↔
    ∃ rxChecksum txChecksum framing,
      Checksum.Named settings.rxChecksum? settings.rxChecksum2? rxChecksum ∧
      Checksum.Named settings.txChecksum? settings.txChecksum2? txChecksum ∧
      settings.AsksFor rxChecksum framing ∧ line = settings.line rxChecksum txChecksum framing := by
  constructor
  · intro h
    obtain ⟨rxChecksum, txChecksum, framing, hrx, htx, hframing, hroom, rfl⟩ :=
      exists_of_ofSettings h
    exact ⟨rxChecksum, txChecksum, framing, Checksum.select_eq_ok_iff.mp hrx,
      Checksum.select_eq_ok_iff.mp htx, asksFor_of_selectFraming hframing hroom, rfl⟩
  · rintro ⟨rxChecksum, txChecksum, framing, hrx, htx, hasks, rfl⟩
    obtain ⟨hframing, hlong⟩ := selectFraming_of_asksFor hasks
    unfold ofSettings
    rw [Checksum.select_eq_ok_iff.mpr hrx, Checksum.select_eq_ok_iff.mpr htx]
    have hselected : (do
        let framing ← selectFraming settings rxChecksum
          (settings.rxHeader.length + rxChecksum.width + settings.rxFooter.length)
        (settings.line rxChecksum txChecksum framing).withCapacity 256) =
          .ok (settings.line rxChecksum txChecksum framing) := by
      rw [hframing]
      exact withCapacity_eq_ok_iff.mpr ⟨hlong, rfl⟩
    exact hselected

/-- Settings describe a line exactly when both directions name a known check at most and the lengths
ask for exactly one framing.  The line is then the one with these checks and this framing.  Any line
takes another capacity exactly when its longest frame fits, and changes in nothing else. -/
theorem acceptance_exact (settings : LineSettings) :
    ((∃ line, ofSettings settings = .ok line) ↔
      ∃ rxChecksum txChecksum,
        Checksum.Named settings.rxChecksum? settings.rxChecksum2? rxChecksum ∧
        Checksum.Named settings.txChecksum? settings.txChecksum2? txChecksum ∧
        ∃! framing, settings.AsksFor rxChecksum framing) ∧
    (∀ line, ofSettings settings = .ok line ↔
      ∃ rxChecksum txChecksum framing,
        Checksum.Named settings.rxChecksum? settings.rxChecksum2? rxChecksum ∧
        Checksum.Named settings.txChecksum? settings.txChecksum2? txChecksum ∧
        settings.AsksFor rxChecksum framing ∧
        line = settings.line rxChecksum txChecksum framing) ∧
    ∀ (line wider : Line) (capacity : Nat), line.withCapacity capacity = .ok wider ↔
      line.rx.framing.longest
          (line.rx.header.length + line.rx.checksum.width + line.rx.footer.length) ≤ capacity ∧
        wider = { line with rx := { line.rx with capacity } } := by
  refine ⟨?_, fun line => ofSettings_eq_ok_iff, fun line wider capacity => ?_⟩
  · simp only [ofSettings_eq_ok_iff]
    constructor
    · rintro ⟨line, rxChecksum, txChecksum, framing, hrx, htx, hasks, -⟩
      exact ⟨rxChecksum, txChecksum, hrx, htx, framing, hasks,
        fun other hother => asksFor_unique hother hasks⟩
    · rintro ⟨rxChecksum, txChecksum, hrx, htx, framing, hasks, -⟩
      exact ⟨_, rxChecksum, txChecksum, framing, hrx, htx, hasks, rfl⟩
  · exact withCapacity_eq_ok_iff

end Line

end PanelBus
