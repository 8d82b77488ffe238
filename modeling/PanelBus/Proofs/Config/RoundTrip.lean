import PanelBus.Proofs.Config.Record
/-!
# Reading what was written

A configuration whose numbers have their sizes is read again as it was written.  Octets come back
from whole numbers, absent members from null or from being left out, and exceptions of patterns at
any depth.
-/

namespace PanelBus

/-! ## Sizes -/

/-- The numbers of the policy have 32 and 64 bits. -/
structure RetryPolicy.WellFormed (retry : RetryPolicy) : Prop where
  attempts : retry.attempts < Word.shortCount
  timeout : retry.timeout < Word.count
  interval : retry.interval < Word.count

/-- The lengths and times of the line have 64 bits. -/
structure LineSettings.WellFormed (settings : LineSettings) : Prop where
  sizes : ∀ size? ∈ [settings.rxLength?, settings.rxMinLength?, settings.rxMaxLength?,
    settings.rxTimeout?, settings.txDelay?], ∀ size ∈ size?, size < Word.count
  retry : ∀ retry ∈ settings.retryPolicy?, retry.WellFormed

/-- The offsets in the tree of a pattern have 64 bits. -/
inductive Pattern.WellFormed : Pattern → Prop where
  | intro {pattern : Pattern} (hoffset : pattern.offset < Word.count)
      (hexcept : ∀ exception ∈ pattern.except, WellFormed exception) : WellFormed pattern

/-- The numbers of the field have 64 and 32 bits, and the names stand in order. -/
structure NumberField.WellFormed (number : NumberField) : Prop where
  offset : number.offset < Word.count
  length : number.length < Word.count
  precision : number.precision < Word.shortCount
  mapping : number.mapping.Rising

/-- The numbers of the command have 64 bits, and the factor is finite. -/
structure Command.WellFormed (command : Command) : Prop where
  valueOffset : ∀ offset ∈ command.valueOffset?, offset < Word.count
  length : command.length < Word.count
  multiply : ∀ factor ∈ command.multiply?, factor.isFinite = true

/-- The parts that every entity has are well formed. -/
structure EntityCommon.WellFormed (common : EntityCommon) : Prop where
  state : ∀ pattern ∈ common.state?, pattern.WellFormed
  stateLambdas : common.stateLambdas.Rising
  update : ∀ command ∈ common.update?, command.WellFormed
  retry : ∀ retry ∈ common.retryPolicy?, retry.WellFormed

/-- The parts that the kind adds are well formed. -/
structure Features.WellFormed (features : Features) : Prop where
  patterns : ∀ pattern? ∈ features.patterns, ∀ pattern ∈ pattern?, pattern.WellFormed
  numbers : ∀ role ∈ features.numbers, ∀ number ∈ role.number?, number.WellFormed
  commands : ∀ entry ∈ features.commands, ∀ command ∈ entry.2, command.WellFormed

/-- All parts of the entity are well formed. -/
structure Entity.WellFormed (entity : Entity) : Prop where
  common : entity.common.WellFormed
  features : entity.features.WellFormed

/-- All parts of the configuration are well formed. -/
structure GatewayConfig.WellFormed (config : GatewayConfig) : Prop where
  settings : config.settings.WellFormed
  entities : ∀ entity ∈ config.entities, entity.WellFormed

namespace Config

open Json (Value Fields)

variable {α β : Type}

/-! ## Single values -/

theorem regains_nat {bound n : Nat} (h : n < bound) (hbound : bound ≤ Word.count) :
    Regains (readNat bound) .nat n where
  read_write := by
    unfold readNat Value.nat Json.Number.toNat?
    dsimp only
    rw [if_pos (Int.natCast_nonneg n)]
    exact if_pos h
  ne_null := nofun
  wellFormed := Value.wellFormed_nat (Nat.lt_of_lt_of_le h hbound)

theorem regains_size {n : Nat} (h : n < Word.count) : Regains readSize .nat n :=
  regains_nat h (Nat.le_refl _)

theorem regains_short {n : Nat} (h : n < Word.shortCount) :
    Regains (readNat Word.shortCount) .nat n := regains_nat h (by decide)

theorem regains_bool (b : Bool) : Regains readBool .bool b := ⟨rfl, nofun, .bool b⟩

theorem regains_text (s : String) : Regains readText .str s := ⟨rfl, nofun, .str s⟩

theorem regains_text? (text? : Option String) : ∀ s ∈ text?, Regains readText .str s :=
  fun s _ => regains_text s

theorem regains_binary64 {x : Binary64} (h : x.isFinite = true) :
    Regains readBinary64 writeBinary64 x := by
  have hwritten : writeBinary64 x = .float x := if_pos h
  refine ⟨?_, ?_, ?_⟩ <;> rw [hwritten]
  · rfl
  · exact nofun
  · exact .float h

theorem regains_octet (b : UInt8) : Regains readOctet (fun b => .nat b.toNat) b where
  read_write := by
    unfold readOctet Value.nat Json.Number.toNat?
    dsimp only
    rw [if_pos (Int.natCast_nonneg _)]
    dsimp only
    rw [Int.toNat_natCast, if_pos b.toNat_lt, UInt8.ofNat_toNat]
  ne_null := nofun
  wellFormed := Value.wellFormed_nat (Nat.lt_trans b.toNat_lt (by decide))

theorem regains_byteOrder (place : Place) (order : ByteOrder) :
    Regains (readName place orderNames) (nameIn orderNames) order := by
  cases order <;> exact ⟨rfl, nofun, .str _⟩

theorem regains_numberCoding (place : Place) (coding : NumberCoding) :
    Regains (readName place numberCodingNames) (nameIn numberCodingNames) coding := by
  cases coding <;> exact ⟨rfl, nofun, .str _⟩

theorem regains_valueCoding (place : Place) (coding : ValueCoding) :
    Regains (readName place valueCodingNames) (nameIn valueCodingNames) coding := by
  cases coding <;> exact ⟨rfl, nofun, .str _⟩

/-! ## Lists and maps -/

theorem mapM_written {read : β → Result α} {write : α → β} {items : List α}
    (h : ∀ a ∈ items, read (write a) = .ok a) : (items.map write).mapM read = .ok items := by
  rw [mapM_eq_ok_iff, List.forall₂_map_left_iff]
  exact List.forall₂_same.2 h

theorem regains_octets (bytes : Bytes) : Regains readOctets writeOctets bytes where
  read_write := mapM_written fun b _ => (regains_octet b).read_write
  ne_null := nofun
  wellFormed := .arr (List.forall_mem_map.2 fun b _ => (regains_octet b).wellFormed)

theorem regains_texts {texts : NameMap String} (h : texts.Rising) :
    Regains readTexts writeTexts texts where
  read_write := mapM_written fun _ _ => rfl
  ne_null := nofun
  wellFormed := .obj (h.mapValues Value.str) (List.forall_mem_map.2 fun _ _ => .str _)

section

variable (fields : Fields) (key : String) {texts : NameMap String} (h : texts.Rising)

include h

/-- A map of texts that is left out when it is empty. -/
theorem texts_of_entry
    (hmember : fields.get? key = if texts ≠ [] then some (writeTexts texts) else none) :
    member fields key [] readTexts = .ok texts := by
  cases texts with
  | nil => exact member_of_none fields key hmember
  | cons entry rest => exact member_of_some fields key (regains_texts h) hmember

theorem wellFormed_textsIf : ∀ entry ∈ textsIf key texts, entry.2.WellFormed := by
  unfold textsIf
  split
  · exact nofun
  · exact List.forall_mem_singleton.2 (regains_texts h).wellFormed

end

theorem regains_mask (mask : Mask) : Regains readMask writeMask mask := by
  cases mask with
  | uniform bits =>
      refine ⟨?_, nofun, (regains_octet bits).wellFormed⟩
      change (readOctet (.nat bits.toNat)).map Mask.uniform = _
      rw [(regains_octet bits).read_write]
      rfl
  | perOctet bits =>
      have hoctet : ∀ bits? : Option UInt8, ∀ b ∈ bits?, Regains readOctet _ b :=
        fun _ b _ => regains_octet b
      refine ⟨?_, nofun, .arr (List.forall_mem_map.2 fun bits? _ => ?_)⟩
      · change (List.mapM (readOption readOctet) (bits.map (writeOption _))).map Mask.perOctet = _
        rw [mapM_written fun bits? _ => readOption_written (hoctet bits?)]
        rfl
      · exact wellFormed_writeOption (hoctet bits?)

/-! ## Records -/

theorem regains_retry {retry : RetryPolicy} (h : retry.WellFormed) :
    Regains readRetry writeRetry retry := by
  have hattempts := regains_short h.attempts
  have htimeout := regains_size h.timeout
  have hinterval := regains_size h.interval
  refine regains_record rfl ?_ fun fields hfound => ?_
  · simp only [List.forall_mem_cons]
    exact ⟨hattempts.wellFormed, htimeout.wellFormed, hinterval.wellFormed, nofun⟩
  · rw [member_of_some fields "attempts" hattempts (by simp [hfound]),
      member_of_some fields "timeout" htimeout (by simp [hfound]),
      member_of_some fields "interval" hinterval (by simp [hfound])]
    rfl

theorem regains_policy? {policy? : Option RetryPolicy} (h : ∀ retry ∈ policy?, retry.WellFormed) :
    ∀ retry ∈ policy?, Regains readRetry writeRetry retry :=
  fun retry hsome => regains_retry (h retry hsome)

theorem regains_settings {settings : LineSettings} (h : settings.WellFormed) :
    Regains readSettings writeSettings settings := by
  have hsizes : ∀ size? ∈ [settings.rxLength?, settings.rxMinLength?, settings.rxMaxLength?,
      settings.rxTimeout?, settings.txDelay?], ∀ size ∈ size?, Regains readSize .nat size :=
    fun size? hmem size hsome => regains_size (h.sizes size? hmem size hsome)
  simp only [List.forall_mem_cons] at hsizes
  obtain ⟨hlength, hleast, hgreatest, htimeout, hdelay, -⟩ := hsizes
  have hretry := regains_policy? h.retry
  have hchecksum := regains_text? settings.rxChecksum?
  have hchecksum2 := regains_text? settings.rxChecksum2?
  have htxChecksum := regains_text? settings.txChecksum?
  have htxChecksum2 := regains_text? settings.txChecksum2?
  refine regains_record rfl ?_ fun fields hfound => ?_
  · simp only [List.forall_mem_cons]
    exact ⟨(regains_octets _).wellFormed, (regains_octets _).wellFormed,
      wellFormed_writeOption hlength, wellFormed_writeOption hleast,
      wellFormed_writeOption hgreatest, wellFormed_writeOption hchecksum,
      wellFormed_writeOption hchecksum2, wellFormed_writeOption htimeout,
      (regains_octets _).wellFormed, (regains_octets _).wellFormed,
      wellFormed_writeOption htxChecksum, wellFormed_writeOption htxChecksum2,
      wellFormed_writeOption hdelay, wellFormed_writeOption hretry, nofun⟩
  · rw [member_of_some fields "rx_header" (regains_octets settings.rxHeader) (by simp [hfound]),
      member_of_some fields "rx_footer" (regains_octets settings.rxFooter) (by simp [hfound]),
      optional_of_written fields "rx_length" hlength (by simp [hfound]),
      optional_of_written fields "rx_min_length" hleast (by simp [hfound]),
      optional_of_written fields "rx_max_length" hgreatest (by simp [hfound]),
      optional_of_written fields "rx_checksum" hchecksum (by simp [hfound]),
      optional_of_written fields "rx_checksum2" hchecksum2 (by simp [hfound]),
      optional_of_written fields "rx_timeout" htimeout (by simp [hfound]),
      member_of_some fields "tx_header" (regains_octets settings.txHeader) (by simp [hfound]),
      member_of_some fields "tx_footer" (regains_octets settings.txFooter) (by simp [hfound]),
      optional_of_written fields "tx_checksum" htxChecksum (by simp [hfound]),
      optional_of_written fields "tx_checksum2" htxChecksum2 (by simp [hfound]),
      optional_of_written fields "tx_delay" hdelay (by simp [hfound]),
      optional_of_written fields "retry" hretry (by simp [hfound])]
    rfl

/-! ## Patterns -/

theorem exceptEntry_eq (entries : Fields) :
    exceptEntry entries = (entries.get? "except").elim (.ok []) readPatterns := by
  unfold NameMap.get?
  induction entries with
  | nil => rfl
  | cons entry rest ih =>
      obtain ⟨key, v⟩ := entry
      rw [exceptEntry, NameMap.lookup_cons, ih]
      by_cases hkey : key = "except"
      · rw [if_pos hkey, if_pos hkey.symm]
        rfl
      · rw [if_neg hkey, if_neg (Ne.symm hkey)]

theorem readPatternItems_eq_mapM (items : List Value) :
    readPatternItems items = items.mapM readPattern := by
  induction items with
  | nil => rfl
  | cons v rest ih => rw [readPatternItems, List.mapM_cons, ih]

theorem writePatternItems_eq_map (patterns : List Pattern) :
    writePatternItems patterns = patterns.map writePattern := by
  induction patterns with
  | nil => rfl
  | cons pattern rest ih => rw [writePatternItems, List.map_cons, ih]

theorem regains_pattern {pattern : Pattern} (h : pattern.WellFormed) :
    Regains readPattern writePattern pattern := by
  induction h with
  | @intro pattern hoffset hexcept ih =>
      obtain ⟨offset, data, mask?, inverted, guard?, except⟩ := pattern
      have hmask : ∀ mask ∈ mask?, Regains readMask writeMask mask :=
        fun mask _ => regains_mask mask
      have hguard := regains_text? guard?
      have hitems : readPatternItems (writePatternItems except) = .ok except := by
        rw [readPatternItems_eq_mapM, writePatternItems_eq_map]
        exact mapM_written fun exception hmem => (ih exception hmem).read_write
      refine ⟨?_, ?_, ?_⟩ <;> rw [writePattern]
      · rw [Value.ofEntries, readPattern]
        refine record_obj ?_
        generalize hfields : NameMap.ofList _ = fields
        have hfound := get?_of_entries hfields
        simp only [List.reverse_append, List.lookup_append] at hfound
        -- The exceptions are looked for among the entries before the other members are read.
        have hothers : exceptEntry fields = .ok except := by
          rw [exceptEntry_eq]
          cases except with
          | nil => simp [hfound]
          | cons first rest => simpa [hfound, readPatterns] using hitems
        rw [patternOf, hothers,
          member_of_some fields "offset" (regains_size hoffset) (by simp [hfound]),
          member_of_some fields "data" (regains_octets data) (by simp [hfound]),
          optional_of_entry fields "mask" hmask (by simp [hfound]),
          member_of_some fields "inverted" (regains_bool inverted) (by simp [hfound]),
          optional_of_entry fields "guard" hguard (by simp [hfound])]
        rfl
      · exact nofun
      · refine Value.wellFormed_ofEntries ?_
        simp only [List.forall_mem_append, List.forall_mem_cons]
        refine ⟨⟨⟨⟨(regains_size hoffset).wellFormed, (regains_octets data).wellFormed,
          (regains_bool inverted).wellFormed, nofun⟩, wellFormed_entryIf _ hmask⟩,
          wellFormed_entryIf _ hguard⟩, ?_⟩
        split
        · exact nofun
        · rw [writePatternItems_eq_map]
          refine List.forall_mem_singleton.2 (.arr (List.forall_mem_map.2 ?_))
          exact fun exception hmem => (ih exception hmem).wellFormed

theorem regains_pattern? {pattern? : Option Pattern}
    (h : ∀ pattern ∈ pattern?, pattern.WellFormed) :
    ∀ pattern ∈ pattern?, Regains readPattern writePattern pattern :=
  fun pattern hsome => regains_pattern (h pattern hsome)

/-! ## Number fields and commands -/

theorem regains_number {number : NumberField} (h : number.WellFormed) (place : Place) :
    Regains (readNumber place) writeNumber number := by
  have horder := regains_byteOrder place number.order
  have hcoding := regains_numberCoding place number.coding
  refine regains_record rfl ?_ fun fields hfound => ?_
  · simp only [List.forall_mem_append, List.forall_mem_cons]
    exact ⟨⟨(regains_size h.offset).wellFormed, (regains_size h.length).wellFormed,
      (regains_bool number.signed).wellFormed, horder.wellFormed, hcoding.wellFormed,
      (regains_short h.precision).wellFormed, nofun⟩, wellFormed_textsIf _ h.mapping⟩
  · simp only [List.reverse_append, List.lookup_append] at hfound
    rw [texts_of_entry fields "mapping" h.mapping (by simp [hfound]),
      member_of_some fields "offset" (regains_size h.offset) (by simp [hfound]),
      member_of_some fields "length" (regains_size h.length) (by simp [hfound]),
      member_of_some fields "signed" (regains_bool number.signed) (by simp [hfound]),
      member_of_some fields "endian" horder (by simp [hfound]),
      member_of_some fields "decode" hcoding (by simp [hfound]),
      member_of_some fields "precision" (regains_short h.precision) (by simp [hfound])]
    rfl

theorem regains_number? {number? : Option NumberField} (h : ∀ number ∈ number?, number.WellFormed)
    (place : Place) : ∀ number ∈ number?, Regains (readNumber place) writeNumber number :=
  fun number hsome => regains_number (h number hsome) place

theorem regains_command {command : Command} (h : command.WellFormed) (place : Place) :
    Regains (readCommand place) writeCommand command := by
  have horder := regains_byteOrder place command.order
  have hcoding := regains_valueCoding place command.coding
  have hoffset : ∀ offset ∈ command.valueOffset?, Regains readSize .nat offset :=
    fun offset hsome => regains_size (h.valueOffset offset hsome)
  have hmultiply : ∀ factor ∈ command.multiply?, Regains readBinary64 writeBinary64 factor :=
    fun factor hsome => regains_binary64 (h.multiply factor hsome)
  have hlambda := regains_text? command.lambda?
  refine regains_record rfl ?_ fun fields hfound => ?_
  · simp only [List.forall_mem_append, List.forall_mem_cons]
    exact ⟨⟨⟨⟨(regains_octets command.data).wellFormed, (regains_size h.length).wellFormed,
      horder.wellFormed, hcoding.wellFormed, nofun⟩, wellFormed_entryIf _ hoffset⟩,
      wellFormed_entryIf _ hmultiply⟩, wellFormed_entryIf _ hlambda⟩
  · simp only [List.reverse_append, List.lookup_append] at hfound
    rw [member_of_some fields "data" (regains_octets command.data) (by simp [hfound]),
      optional_of_entry fields "value_offset" hoffset (by simp [hfound]),
      member_of_some fields "length" (regains_size h.length) (by simp [hfound]),
      member_of_some fields "endian" horder (by simp [hfound]),
      member_of_some fields "value_encode" hcoding (by simp [hfound]),
      optional_of_entry fields "multiply" hmultiply (by simp [hfound]),
      optional_of_entry fields "lambda" hlambda (by simp [hfound])]
    rfl

theorem regains_command? {command? : Option Command} (h : ∀ command ∈ command?, command.WellFormed)
    (place : Place) : ∀ command ∈ command?, Regains (readCommand place) writeCommand command :=
  fun command hsome => regains_command (h command hsome) place

/-! ## Entities -/

section

variable (fields : Fields) (key : String)

theorem patternPart_written {pattern? : Option Pattern}
    (h : ∀ pattern ∈ pattern?, pattern.WellFormed)
    (hmember : fields.get? key = some (writeOption writePattern pattern?)) :
    patternPart fields key = .ok pattern? :=
  optional_of_written fields key (regains_pattern? h) hmember

theorem numberPart_written {number? : Option NumberField}
    (h : ∀ number ∈ number?, number.WellFormed)
    (hmember : fields.get? key = some (writeOption writeNumber number?)) :
    numberPart fields key = .ok number? :=
  optional_of_written fields key (regains_number? h _) hmember

theorem commandPart_written {command? : Option Command}
    (h : ∀ command ∈ command?, command.WellFormed)
    (hmember : fields.get? key = some (writeOption writeCommand command?)) :
    commandPart fields key = .ok command? :=
  optional_of_written fields key (regains_command? h _) hmember

end

theorem featuresOf_written {fields : Fields} {features : Features} (h : features.WellFormed)
    (hfound : ∀ entry ∈ featureEntries features, fields.get? entry.1 = some entry.2) :
    featuresOf fields features.kind = .ok features := by
  obtain ⟨hpatterns, hnumbers, hcommands⟩ := h
  cases features <;>
    simp only [Features.kind, Features.patterns, Features.numbers, Features.commands,
      featureEntries, List.forall_mem_cons] at hpatterns hnumbers hcommands hfound ⊢
  case light c =>
      obtain ⟨hon, hoff, -⟩ := hpatterns
      obtain ⟨hbrightness, -⟩ := hnumbers
      obtain ⟨hturnOn, hturnOff, hsetBrightness, -⟩ := hcommands
      obtain ⟨hfoundOn, hfoundOff, hfoundBrightness, hfoundTurnOn, hfoundTurnOff,
        hfoundSetBrightness, -⟩ := hfound
      rw [featuresOf, patternPart_written fields _ hon hfoundOn,
        patternPart_written fields _ hoff hfoundOff,
        numberPart_written fields _ hbrightness hfoundBrightness,
        commandPart_written fields _ hturnOn hfoundTurnOn,
        commandPart_written fields _ hturnOff hfoundTurnOff,
        commandPart_written fields _ hsetBrightness hfoundSetBrightness]
      rfl
  case switch c =>
      obtain ⟨hon, hoff, -⟩ := hpatterns
      obtain ⟨hturnOn, hturnOff, -⟩ := hcommands
      obtain ⟨hfoundOn, hfoundOff, hfoundTurnOn, hfoundTurnOff, -⟩ := hfound
      rw [featuresOf, patternPart_written fields _ hon hfoundOn,
        patternPart_written fields _ hoff hfoundOff,
        commandPart_written fields _ hturnOn hfoundTurnOn,
        commandPart_written fields _ hturnOff hfoundTurnOff]
      rfl
  case binarySensor c =>
      obtain ⟨hon, hoff, -⟩ := hpatterns
      obtain ⟨hfoundOn, hfoundOff, -⟩ := hfound
      rw [featuresOf, patternPart_written fields _ hon hfoundOn,
        patternPart_written fields _ hoff hfoundOff]
      rfl
  case fan c =>
      obtain ⟨hon, hoff, -⟩ := hpatterns
      obtain ⟨hspeed, -⟩ := hnumbers
      obtain ⟨hturnOn, hturnOff, hsetSpeed, -⟩ := hcommands
      obtain ⟨hfoundOn, hfoundOff, hfoundSpeed, hfoundTurnOn, hfoundTurnOff, hfoundSetSpeed,
        -⟩ := hfound
      rw [featuresOf, patternPart_written fields _ hon hfoundOn,
        patternPart_written fields _ hoff hfoundOff,
        numberPart_written fields _ hspeed hfoundSpeed,
        commandPart_written fields _ hturnOn hfoundTurnOn,
        commandPart_written fields _ hturnOff hfoundTurnOff,
        commandPart_written fields _ hsetSpeed hfoundSetSpeed]
      rfl
  case valve c =>
      obtain ⟨hisOpen, hisClosed, -⟩ := hpatterns
      obtain ⟨hopenUp, hclose, -⟩ := hcommands
      obtain ⟨hfoundIsOpen, hfoundIsClosed, hfoundOpenUp, hfoundClose, -⟩ := hfound
      rw [featuresOf, patternPart_written fields _ hisOpen hfoundIsOpen,
        patternPart_written fields _ hisClosed hfoundIsClosed,
        commandPart_written fields _ hopenUp hfoundOpenUp,
        commandPart_written fields _ hclose hfoundClose]
      rfl
  case climate c =>
      obtain ⟨hoff, hheat, hcool, -⟩ := hpatterns
      obtain ⟨hcurrent, htarget, -⟩ := hnumbers
      obtain ⟨hturnOff, hstartHeat, hstartCool, hsetTarget, -⟩ := hcommands
      obtain ⟨hfoundOff, hfoundHeat, hfoundCool, hfoundCurrent, hfoundTarget, hfoundTurnOff,
        hfoundStartHeat, hfoundStartCool, hfoundSetTarget, -⟩ := hfound
      rw [featuresOf, patternPart_written fields _ hoff hfoundOff,
        patternPart_written fields _ hheat hfoundHeat,
        patternPart_written fields _ hcool hfoundCool,
        numberPart_written fields _ hcurrent hfoundCurrent,
        numberPart_written fields _ htarget hfoundTarget,
        commandPart_written fields _ hturnOff hfoundTurnOff,
        commandPart_written fields _ hstartHeat hfoundStartHeat,
        commandPart_written fields _ hstartCool hfoundStartCool,
        commandPart_written fields _ hsetTarget hfoundSetTarget]
      rfl
  case sensor c =>
      obtain ⟨hnumber, -⟩ := hnumbers
      obtain ⟨hfoundNumber, -⟩ := hfound
      rw [featuresOf, numberPart_written fields _ hnumber hfoundNumber]
      rfl
  case button c =>
      obtain ⟨hpress, -⟩ := hcommands
      obtain ⟨hfoundPress, -⟩ := hfound
      rw [featuresOf, commandPart_written fields _ hpress hfoundPress]
      rfl

/-- The names of the members that every entity has. -/
def commonKeys : List String :=
  ["id", "name", "state", "state_lambdas", "command_update", "optimistic", "retry"]

theorem commonOf_written {fields : Fields} {common : EntityCommon} (h : common.WellFormed)
    (hfound : ∀ key ∈ commonKeys, fields.get? key = (commonEntries common).reverse.lookup key) :
    commonOf fields = .ok common := by
  simp only [commonKeys, commonEntries, List.reverse_append, List.lookup_append] at hfound
  rw [commonOf, patternPart, commandPart,
    required_of_some fields "id" (regains_text common.id) (by simp [hfound]),
    member_of_some fields "name" (regains_text common.name) (by simp [hfound]),
    optional_of_entry fields "state" (regains_pattern? h.state) (by simp [hfound]),
    texts_of_entry fields "state_lambdas" h.stateLambdas (by simp [hfound]),
    optional_of_entry fields "command_update" (regains_command? h.update .entity)
      (by simp [hfound]),
    member_of_some fields "optimistic" (regains_bool common.optimistic) (by simp [hfound]),
    optional_of_entry fields "retry" (regains_policy? h.retry) (by simp [hfound])]
  rfl

theorem wellFormed_commonEntries {common : EntityCommon} (h : common.WellFormed) :
    ∀ entry ∈ commonEntries common, entry.2.WellFormed := by
  simp only [commonEntries, List.forall_mem_append, List.forall_mem_cons]
  exact ⟨⟨⟨⟨⟨(regains_text _).wellFormed, (regains_text _).wellFormed, (regains_bool _).wellFormed,
    nofun⟩, wellFormed_entryIf _ (regains_pattern? h.state)⟩, wellFormed_textsIf _ h.stateLambdas⟩,
    wellFormed_entryIf _ (regains_command? h.update .entity)⟩,
    wellFormed_entryIf _ (regains_policy? h.retry)⟩

theorem kindOf_written {fields : Fields} {kind : EntityKind}
    (hmember : fields.get? "type" = some (.str kind.name)) : kindOf fields = .ok kind := by
  unfold kindOf
  rw [hmember]
  cases kind <;> rfl

/-- No member that every entity has is named as one that the kind adds. -/
theorem lookup_featureEntries_of_common (features : Features) {key : String}
    (h : key ∈ "type" :: commonKeys) : (featureEntries features).reverse.lookup key = none := by
  simp only [commonKeys, List.mem_cons, List.not_mem_nil, or_false] at h
  rcases h with rfl | rfl | rfl | rfl | rfl | rfl | rfl | rfl <;> cases features <;>
    simp [featureEntries]

theorem lookup_featureEntries_of_mem (features : Features) :
    ∀ entry ∈ featureEntries features,
      (featureEntries features).reverse.lookup entry.1 = some entry.2 := by
  cases features <;> simp [featureEntries]

theorem eq_writeOption_of_mem_featureEntries (features : Features) :
    ∀ entry ∈ featureEntries features,
      (∃ pattern? ∈ features.patterns, entry.2 = writeOption writePattern pattern?) ∨
      (∃ role ∈ features.numbers, entry.2 = writeOption writeNumber role.number?) ∨
      ∃ part ∈ features.commands, entry.2 = writeOption writeCommand part.2 := by
  cases features <;>
    simp [featureEntries, Features.patterns, Features.numbers, Features.commands]

theorem wellFormed_featureEntries {features : Features} (h : features.WellFormed) :
    ∀ entry ∈ featureEntries features, entry.2.WellFormed := by
  intro entry hentry
  rcases eq_writeOption_of_mem_featureEntries features entry hentry with
    ⟨pattern?, hmem, hvalue⟩ | ⟨role, hmem, hvalue⟩ | ⟨part, hmem, hvalue⟩ <;> rw [hvalue]
  · exact wellFormed_writeOption (regains_pattern? (h.patterns pattern? hmem))
  · exact wellFormed_writeOption (regains_number? (h.numbers role hmem) .entity)
  · exact wellFormed_writeOption (regains_command? (h.commands part hmem) .entity)

theorem regains_entity {entity : Entity} (h : entity.WellFormed) :
    Regains readEntity writeEntity entity where
  read_write := by
    obtain ⟨common, features⟩ := entity
    rw [writeEntity, Value.ofEntries]
    generalize hfields : NameMap.ofList _ = fields
    have hfound := get?_of_entries hfields
    simp only [List.reverse_append, List.lookup_append] at hfound
    have hkind : kindOf fields = .ok features.kind := by
      refine kindOf_written ?_
      rw [hfound, lookup_featureEntries_of_common features (.head _)]
      simp [commonEntries, List.lookup_append, Entity.kind]
    have hfeatures : featuresOf fields features.kind = .ok features := by
      refine featuresOf_written h.features fun entry hentry => ?_
      rw [hfound, lookup_featureEntries_of_mem features entry hentry]
      rfl
    have hcommon : commonOf fields = .ok common := by
      refine commonOf_written h.common fun key hkey => ?_
      have hother : key ≠ "type" := by
        rintro rfl
        exact absurd hkey (by decide)
      rw [hfound, lookup_featureEntries_of_common features (.tail _ hkey)]
      simp [List.lookup_append, hother]
    unfold readEntity
    dsimp only
    rw [hkind]
    dsimp only [bind, Except.bind]
    rw [hfeatures, hcommon]
    rfl
  ne_null := nofun
  wellFormed := by
    refine Value.wellFormed_ofEntries ?_
    rw [List.cons_append, List.forall_mem_cons, List.forall_mem_append]
    exact ⟨.str _, wellFormed_commonEntries h.common, wellFormed_featureEntries h.features⟩

/-! ## Gateways -/

theorem regains_entities {entities : List Entity} (h : ∀ entity ∈ entities, entity.WellFormed) :
    Regains (readList readEntity) (fun entities => .arr (entities.map writeEntity)) entities where
  read_write := mapM_written fun entity hmem => (regains_entity (h entity hmem)).read_write
  ne_null := nofun
  wellFormed := by
    refine .arr (List.forall_mem_map.2 ?_)
    exact fun entity hmem => (regains_entity (h entity hmem)).wellFormed

theorem regains_gateway {config : GatewayConfig} (h : config.WellFormed) :
    Regains readGateway writeGateway config := by
  have hsettings := regains_settings h.settings
  have hentities := regains_entities h.entities
  refine regains_record rfl ?_ fun fields hfound => ?_
  · simp only [List.forall_mem_cons]
    exact ⟨(regains_text _).wellFormed, hsettings.wellFormed, hentities.wellFormed, nofun⟩
  · rw [member_of_some fields "port_id" (regains_text config.id) (by simp [hfound]),
      member_of_some fields "packet_defaults" hsettings (by simp [hfound]),
      member_of_some fields "entities" hentities (by simp [hfound])]
    rfl

end Config

end PanelBus
