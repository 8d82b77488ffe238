import PanelBus.Line.Basic
/-!
# Accepted lines

Settings are checked once, before any octet is received.  This module names the lines that pass and
collects what the checks leave of the receive format: there is room for data in every frame, and
the buffer has room for every frame.
-/

namespace PanelBus

/-- The lines made from settings, with any capacities that were accepted afterwards. -/
inductive Line.Accepted : Line → Prop where
  | ofSettings {settings : LineSettings} {line : Line}
      (h : Line.ofSettings settings = .ok line) : Accepted line
  | withCapacity {line wider : Line} {capacity : Nat} (h : Accepted line)
      (hcapacity : line.withCapacity capacity = .ok wider) : Accepted wider

/-- A framing that leaves room for data besides `overhead` other octets. -/
def Framing.Fits (checksum : Checksum) (footer : Bytes) (overhead : Nat) : Framing → Prop
  | .fixed length => overhead < length
  | .footer => footer ≠ []
  | .sweep least greatest => checksum ≠ .unchecked ∧ overhead < least ∧ least ≤ greatest

/-- What the checks leave of a receive format. -/
structure RxFormat.Sound (rx : RxFormat) : Prop where
  roomy : rx.needed ≤ rx.capacity
  fits : rx.framing.Fits rx.checksum rx.footer rx.overhead

/-- The line that the settings describe with these checks and this framing. -/
def LineSettings.line (settings : LineSettings) (rxChecksum txChecksum : Checksum)
    (framing : Framing) : Line where
  rx :=
    { header := settings.rxHeader
      footer := settings.rxFooter
      framing
      checksum := rxChecksum
      timeout? := settings.rxTimeout?
      capacity := 256 }
  tx :=
    { header := settings.txHeader
      footer := settings.txFooter
      checksum := txChecksum }
  txDelay := settings.txDelay?.getD 50
  retry := settings.retryPolicy?.getD { attempts := 5, timeout := 2000, interval := 125 }

namespace Line

theorem of_withCapacity {line wider : Line} {capacity : Nat}
    (h : line.withCapacity capacity = .ok wider) :
    line.rx.needed ≤ capacity ∧ wider = { line with rx := { line.rx with capacity } } := by
  unfold withCapacity at h
  split at h
  · cases h
  · next hroom =>
    cases h
    exact ⟨by omega, rfl⟩

theorem fits_of_selectFraming {settings : LineSettings} {checksum : Checksum} {overhead : Nat}
    {framing : Framing} (h : selectFraming settings checksum overhead = .ok framing) :
    framing.Fits checksum settings.rxFooter overhead := by
  unfold selectFraming at h
  split at h
  · cases h
  · cases h
  · split at h
    · cases h
    · next hlength =>
      cases h
      exact Nat.lt_of_not_le hlength
  · split at h
    · cases h
    · next hchecked =>
      split at h
      · cases h
      · next horder =>
        split at h
        · cases h
        · next hleast =>
          cases h
          exact ⟨hchecked, Nat.lt_of_not_le hleast, Nat.le_of_not_lt horder⟩
  · cases h
  · cases h
  · split at h
    · cases h
    · next hfooter =>
      cases h
      simpa [Framing.Fits] using hfooter

/-- Settings that are accepted went through every check, and the line has what the checks chose. -/
theorem exists_of_ofSettings {settings : LineSettings} {line : Line}
    (h : ofSettings settings = .ok line) :
    ∃ rxChecksum txChecksum framing,
      Checksum.select settings.rxChecksum? settings.rxChecksum2? = .ok rxChecksum ∧
      Checksum.select settings.txChecksum? settings.txChecksum2? = .ok txChecksum ∧
      selectFraming settings rxChecksum
        (settings.rxHeader.length + rxChecksum.width + settings.rxFooter.length) = .ok framing ∧
      (settings.line rxChecksum txChecksum framing).rx.needed ≤ 256 ∧
      line = settings.line rxChecksum txChecksum framing := by
  unfold ofSettings at h
  cases hrx : Checksum.select settings.rxChecksum? settings.rxChecksum2? with
  | error error =>
    rw [hrx] at h
    cases h
  | ok rxChecksum =>
  cases htx : Checksum.select settings.txChecksum? settings.txChecksum2? with
  | error error =>
    rw [hrx, htx] at h
    cases h
  | ok txChecksum =>
  rw [hrx, htx] at h
  have hselected : (do
      let framing ← selectFraming settings rxChecksum
        (settings.rxHeader.length + rxChecksum.width + settings.rxFooter.length)
      (settings.line rxChecksum txChecksum framing).withCapacity 256) = .ok line := h
  cases hframing : selectFraming settings rxChecksum
      (settings.rxHeader.length + rxChecksum.width + settings.rxFooter.length) with
  | error fault =>
    rw [hframing] at hselected
    cases hselected
  | ok framing =>
  rw [hframing] at hselected
  obtain ⟨hroom, rfl⟩ := of_withCapacity hselected
  exact ⟨rxChecksum, txChecksum, framing, rfl, rfl, hframing, hroom, rfl⟩

theorem sound_of_ofSettings {settings : LineSettings} {line : Line}
    (h : ofSettings settings = .ok line) : line.rx.Sound := by
  obtain ⟨rxChecksum, txChecksum, framing, -, -, hframing, hroom, rfl⟩ := exists_of_ofSettings h
  exact ⟨hroom, fits_of_selectFraming hframing⟩

theorem Accepted.sound {line : Line} (h : line.Accepted) : line.rx.Sound := by
  induction h with
  | ofSettings h => exact sound_of_ofSettings h
  | withCapacity _ hcapacity ih =>
      obtain ⟨hroom, rfl⟩ := of_withCapacity hcapacity
      exact ⟨hroom, ih.fits⟩

/-- A line whose frames start with `0xF7`, have three to seven octets and end with their sum. -/
def sample : Line where
  rx :=
    { header := [0xF7]
      footer := []
      framing := .sweep 3 7
      checksum := .single .add
      timeout? := some 50
      capacity := defaultCapacity }
  tx := { header := [0xF7], footer := [], checksum := .single .add }
  txDelay := defaultTxDelay
  retry := {}

theorem accepted_sample : sample.Accepted := by
  let settings : LineSettings :=
    { rxHeader := [0xF7]
      rxMinLength? := some 3
      rxMaxLength? := some 7
      rxChecksum? := some "add"
      rxTimeout? := some 50
      txHeader := [0xF7]
      txChecksum? := some "add" }
  have hsettings : ofSettings settings = .ok sample := rfl
  exact .ofSettings hsettings

end Line

end PanelBus
