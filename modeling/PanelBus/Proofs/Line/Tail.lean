import PanelBus.Proofs.Line.Genuine
import PanelBus.Proofs.Line.Scan
/-!
# Frames that end with a footer

With a footer nothing but the last octet received ends a frame, so the frame is a tail of what has
been received.  Where several tails are frames the longest one is given out and nothing is left;
where none is, the octets stay from the first one on at which a frame may still start.
-/

namespace PanelBus

/-! ## Longest tails -/

/-- The part is the longest tail of the octets that has the property. -/
structure Bytes.IsLongestTail (P : Bytes → Prop) (octets part : Bytes) : Prop where
  suffix : part <:+ octets
  holds : P part
  longest : ∀ other, other <:+ octets → P other → other.length ≤ part.length

namespace Bytes.IsLongestTail

variable {P Q : Bytes → Prop} {octets part : Bytes}

theorem whole (h : P octets) : IsLongestTail P octets octets :=
  ⟨List.suffix_rfl, h, fun _ hother _ => hother.length_le⟩

theorem of_cons {b : UInt8} (hnot : ¬P (b :: octets)) (h : IsLongestTail P octets part) :
    IsLongestTail P (b :: octets) part := by
  refine ⟨h.suffix.trans (List.suffix_cons b octets), h.holds, fun other hother hholds => ?_⟩
  rcases List.suffix_cons_iff.mp hother with rfl | hshorter
  · exact absurd hholds hnot
  · exact h.longest other hshorter hholds

theorem congr (hiff : ∀ other, other <:+ octets → (P other ↔ Q other))
    (h : IsLongestTail P octets part) : IsLongestTail Q octets part := by
  refine ⟨h.suffix, (hiff part h.suffix).mp h.holds, fun other hother hholds => ?_⟩
  exact h.longest other hother ((hiff other hother).mpr hholds)

/-- There is one where the empty tail has the property. -/
theorem exists_of_nil (h : P []) (octets : Bytes) : ∃ part, IsLongestTail P octets part := by
  induction octets with
  | nil => exact ⟨[], whole h⟩
  | cons b rest ih =>
      by_cases hholds : P (b :: rest)
      · exact ⟨b :: rest, whole hholds⟩
      · obtain ⟨part, hpart⟩ := ih
        exact ⟨part, hpart.of_cons hholds⟩

end Bytes.IsLongestTail

open Bytes (IsLongestTail)

namespace RxFormat

variable {rx : RxFormat} {octets : Bytes}

/-- The octets are a frame that holds data. -/
def Whole (rx : RxFormat) (octets : Bytes) : Prop :=
  rx.overhead < octets.length ∧ rx.IsFrame octets octets.length

instance (rx : RxFormat) (octets : Bytes) : Decidable (rx.Whole octets) :=
  inferInstanceAs (Decidable (_ ∧ _))

/-- The octets are those of the header as far as both go. -/
def MayStart (rx : RxFormat) (octets : Bytes) : Prop :=
  rx.header <+: octets ∨ octets <+: rx.header

theorem whole_iff : rx.Whole octets ↔
    rx.MayStart octets ∧ ¬rx.Unended octets ∧ rx.accepts octets octets.length := by
  unfold Whole MayStart Unended
  rw [not_or, Nat.not_le, not_not]
  constructor
  · rintro ⟨hlong, hframe⟩
    have hheader : rx.header.length ≤ octets.length := by
      unfold overhead at hlong
      omega
    obtain ⟨hstarts, haccepts⟩ := (isFrame_iff hheader).mp hframe
    have hfooter := (accepts_iff.mp haccepts).2.1
    rw [List.take_length] at hfooter
    exact ⟨.inl hstarts, ⟨hlong, hfooter⟩, haccepts⟩
  · rintro ⟨hstarts, ⟨hlong, -⟩, haccepts⟩
    have hheader : rx.header.length ≤ octets.length := by
      unfold overhead at hlong
      omega
    have hbegins := header_prefix_of_agrees ((rx.headerAgrees_iff octets).mpr hstarts) hheader
    exact ⟨hlong, (isFrame_iff hheader).mpr ⟨hbegins, haccepts⟩⟩

theorem Unended.of_short (h : octets.length < rx.header.length) : rx.Unended octets := by
  refine .inl ?_
  unfold overhead
  omega

/-- What a search does at the front when frames end with a footer: it skips an octet with which no
frame starts, waits, finds a frame that takes everything, or gives up the octet. -/
theorem search_footer_cases (hfooter : rx.framing = .footer) (b : UInt8) (rest : Bytes) :
    (¬rx.MayStart (b :: rest) ∧ rx.search (b :: rest) = (rx.search rest).afterDrop) ∨
    (rx.MayStart (b :: rest) ∧ rx.Unended (b :: rest) ∧
      rx.search (b :: rest) = { rest := b :: rest }) ∨
    (rx.Whole (b :: rest) ∧ rx.search (b :: rest) = { frame? := some (b :: rest) }) ∨
    (¬rx.Unended (b :: rest) ∧ ¬rx.Whole (b :: rest) ∧
      rx.search (b :: rest) = (rx.search rest).afterFailure) := by
  have hagrees : rx.headerAgrees (b :: rest) = true ↔ rx.MayStart (b :: rest) :=
    rx.headerAgrees_iff (b :: rest)
  rw [search_cons]
  by_cases hstart : rx.MayStart (b :: rest)
  · rw [if_neg (by simpa using hagrees.mpr hstart)]
    by_cases hunended : rx.Unended (b :: rest)
    · refine .inr (.inl ⟨hstart, hunended, ?_⟩)
      rw [hunended.verdict_eq hfooter, ite_self]
    · have hlong : ¬(b :: rest).length < rx.header.length :=
        fun hshort => hunended (.of_short hshort)
      rw [if_neg hlong, verdict_of_not_unended hfooter hunended]
      by_cases haccepts : rx.accepts (b :: rest) (b :: rest).length
      · refine .inr (.inr (.inl ⟨whole_iff.mpr ⟨hstart, hunended, haccepts⟩, ?_⟩))
        rw [if_pos haccepts]
        dsimp only
        rw [List.take_length, List.drop_length]
      · refine .inr (.inr (.inr ⟨hunended, fun hwhole => ?_, by rw [if_neg haccepts]⟩))
        exact haccepts (whole_iff.mp hwhole).2.2
  · refine .inl ⟨hstart, ?_⟩
    rw [if_pos (by simpa using hagrees.not.mpr hstart)]

/-- The frame found is the longest tail that is one, and takes all octets with it. -/
theorem search_of_whole_tail (hfooter : rx.framing = .footer)
    (h : ∃ part, part <:+ octets ∧ rx.Whole part) :
    ∃ frame, IsLongestTail rx.Whole octets frame ∧ (rx.search octets).frame? = some frame ∧
      (rx.search octets).rest = [] := by
  induction octets with
  | nil =>
      obtain ⟨part, hpart, hwhole⟩ := h
      rw [List.suffix_nil.mp hpart] at hwhole
      exact absurd hwhole.1 (Nat.not_lt_zero _)
  | cons b rest ih =>
      have hlater (hnot : ¬rx.Whole (b :: rest)) : ∃ part, part <:+ rest ∧ rx.Whole part := by
        obtain ⟨part, hpart, hwhole⟩ := h
        rcases List.suffix_cons_iff.mp hpart with rfl | hshorter
        · exact absurd hwhole hnot
        · exact ⟨part, hshorter, hwhole⟩
      rcases search_footer_cases hfooter b rest with ⟨hstart, hsearch⟩ | ⟨-, hunended, -⟩ |
        ⟨hwhole, hsearch⟩ | ⟨-, hnot, hsearch⟩
      · have hnot : ¬rx.Whole (b :: rest) := fun hwhole => hstart (whole_iff.mp hwhole).1
        obtain ⟨frame, hframe, hfound, hrest⟩ := ih (hlater hnot)
        rw [hsearch]
        exact ⟨frame, hframe.of_cons hnot, hfound, hrest⟩
      · -- A tail that is a frame would end with the footer, as then all octets do.
        obtain ⟨part, hpart, hwhole⟩ := h
        exact absurd (hunended.of_suffix hpart) (whole_iff.mp hwhole).2.1
      · rw [hsearch]
        exact ⟨b :: rest, .whole hwhole, rfl, rfl⟩
      · obtain ⟨frame, hframe, hfound, hrest⟩ := ih (hlater hnot)
        rw [hsearch]
        exact ⟨frame, hframe.of_cons hnot, hfound, hrest⟩

/-- Without a frame the octets stay from the first one on that may start a frame not ended yet. -/
theorem search_of_no_whole_tail (hfooter : rx.framing = .footer)
    (h : ∀ part, part <:+ octets → ¬rx.Whole part) :
    (rx.search octets).frame? = none ∧
      IsLongestTail (fun part => rx.MayStart part ∧ rx.Unended part) octets
        (rx.search octets).rest := by
  induction octets with
  | nil => exact ⟨rfl, .whole ⟨.inr List.nil_prefix, .inl (Nat.zero_le _)⟩⟩
  | cons b rest ih =>
      have hrest := ih fun part hpart => h part (hpart.trans (List.suffix_cons b rest))
      rcases search_footer_cases hfooter b rest with ⟨hstart, hsearch⟩ |
        ⟨hstart, hunended, hsearch⟩ | ⟨hwhole, -⟩ | ⟨hended, -, hsearch⟩
      · rw [hsearch]
        exact ⟨hrest.1, hrest.2.of_cons fun hholds => hstart hholds.1⟩
      · rw [hsearch]
        exact ⟨rfl, .whole ⟨hstart, hunended⟩⟩
      · exact absurd hwhole (h (b :: rest) List.suffix_rfl)
      · rw [hsearch]
        exact ⟨hrest.1, hrest.2.of_cons fun hholds => hended hholds.2⟩

/-- Whether a tail is ended is decided by the longest one at which a frame may start. -/
theorem unended_iff {aligned part : Bytes} (haligned : IsLongestTail rx.MayStart octets aligned)
    (hpart : part <:+ octets) (hstart : rx.MayStart part) :
    rx.Unended part ↔
      (rx.overhead < aligned.length → rx.footer <:+ octets → part.length ≤ rx.overhead) := by
  have hle := haligned.longest part hpart hstart
  constructor
  · rintro (hshort | hends) _ hfooter
    · exact hshort
    · refine Nat.le_of_not_lt fun hlong => hends ?_
      refine List.suffix_of_suffix_length_le hfooter hpart ?_
      unfold overhead at hlong
      omega
  · intro h
    by_cases hshort : part.length ≤ rx.overhead
    · exact .inl hshort
    · refine .inr fun hends => hshort (h (by omega) (hends.trans hpart))

end RxFormat

/-- A line whose frames start with `0xF7` and end with the exclusive or of their data and `0xEE`. -/
def Line.footed : Line where
  rx :=
    { header := [0xF7]
      footer := [0xEE]
      framing := .footer
      checksum := .single .xorNoHeader
      timeout? := none
      capacity := Line.defaultCapacity }
  tx := { header := [0xF7], footer := [0xEE], checksum := .single .xorNoHeader }
  txDelay := Line.defaultTxDelay
  retry := {}

theorem Line.accepted_footed : Line.footed.Accepted := by
  let settings : LineSettings :=
    { rxHeader := [0xF7]
      rxFooter := [0xEE]
      rxChecksum? := some "xor_no_header"
      txHeader := [0xF7]
      txFooter := [0xEE]
      txChecksum? := some "xor_no_header" }
  have hsettings : Line.ofSettings settings = .ok Line.footed := rfl
  exact .ofSettings hsettings

namespace Assembler

open RxFormat

/-- **The longest valid tail is the frame.**  Where frames end with a footer, let an octet come
after any run and any part of a chunk, and take it with what is pending.  If a tail of these octets
is a frame with data, the longest one is given out and nothing is left.  Otherwise nothing is given
out and the octets stay from the first one on at which a frame may start; if these end with the
footer and are more than the parts around the data, then from the first such one that leaves no
more than these parts.  In either case the oldest go if the buffer is full. -/
theorem footer_tail_of_run {line : Line} (hline : line.Accepted)
    (hfooter : line.rx.framing = .footer) (steps : List Step) (early : Bytes) (b : UInt8)
    (now : Nat) :
    let assembler := ((ofFormat line.rx).run steps).2
    let before := (assembler.touch now).feedAll early
    let after := assembler.push (early ++ [b]) now
    let octets := before.2.pending ++ [b]
    ((∃ part, part <:+ octets ∧ line.rx.Whole part) →
      ∃ frame, IsLongestTail line.rx.Whole octets frame ∧ after.1 = before.1 ++ [frame] ∧
        after.2.pending = []) ∧
    ((∀ part, part <:+ octets → ¬line.rx.Whole part) →
      after.1 = before.1 ∧
      ∃ aligned left, IsLongestTail line.rx.MayStart octets aligned ∧
        IsLongestTail (fun part => line.rx.MayStart part ∧
          (line.rx.overhead < aligned.length → line.rx.footer <:+ octets →
            part.length ≤ line.rx.overhead)) octets left ∧
        after.2.pending = left.drop (left.length - line.rx.capacity)) := by
  intro assembler before after octets
  have huses : before.2.Uses line.rx :=
    (((uses_ofFormat line.rx).run steps).touch now).feedAll early
  have hcapacity : before.2.buffer.capacity = line.rx.capacity := by
    have hpos := hline.sound.capacity_pos
    rw [huses.capacity_eq]
    omega
  have hafter : after = (before.1 ++ (line.rx.search octets).frame?.toList,
      (before.2.feed b).2) := by
    simp only [after]
    rw [push_of_ne_nil _ (by simp), feedAll_concat, feed_eq, huses.rx_eq]
  have hpending : after.2.pending =
      (line.rx.search octets).rest.drop
        ((line.rx.search octets).rest.length - line.rx.capacity) := by
    rw [hafter, feed_eq, huses.rx_eq, hcapacity]
    rfl
  constructor
  · intro hsome
    obtain ⟨frame, hframe, hfound, hrest⟩ := search_of_whole_tail hfooter hsome
    refine ⟨frame, hframe, ?_, ?_⟩
    · rw [hafter, hfound]
      rfl
    · rw [hpending, hrest]
      exact List.drop_nil
  · intro hnone
    obtain ⟨hfound, hrest⟩ := search_of_no_whole_tail hfooter hnone
    obtain ⟨aligned, haligned⟩ :=
      IsLongestTail.exists_of_nil (P := line.rx.MayStart) (.inr List.nil_prefix) octets
    refine ⟨?_, aligned, (line.rx.search octets).rest, haligned, ?_, hpending⟩
    · rw [hafter, hfound]
      exact List.append_nil _
    · exact hrest.congr fun part hpart => and_congr_right fun hstart =>
        unended_iff haligned hpart hstart

/-- All seven octets are no frame, but the last six are one, and so are the last four. -/
theorem footer_tail_of_run_footed :
    let assembler := ((ofFormat Line.footed.rx).run [.chunk ⟨[0xF7, 0xF7, 0xF7, 0xF7, 0x01], 0⟩]).2
    let before := (assembler.touch 10).feedAll [0x01]
    let after := assembler.push [0x01, 0xEE] 10
    let octets := before.2.pending ++ [0xEE]
    Line.footed.Accepted ∧ Line.footed.rx.framing = .footer ∧
      ([0xF7, 0x01, 0x01, 0xEE] <:+ octets ∧ Line.footed.rx.Whole [0xF7, 0x01, 0x01, 0xEE]) ∧
      after.1 = [[0xF7, 0xF7, 0xF7, 0x01, 0x01, 0xEE]] ∧
      ∃ frame, IsLongestTail Line.footed.rx.Whole octets frame ∧ after.1 = before.1 ++ [frame] ∧
        after.2.pending = [] := by
  intro assembler before after octets
  have htail : [0xF7, 0x01, 0x01, 0xEE] <:+ octets ∧
      Line.footed.rx.Whole [0xF7, 0x01, 0x01, 0xEE] := by decide
  have hmain := footer_tail_of_run Line.accepted_footed rfl
    [.chunk ⟨[0xF7, 0xF7, 0xF7, 0xF7, 0x01], 0⟩] [0x01] 0xEE 10
  exact ⟨Line.accepted_footed, rfl, htail, by decide, hmain.1 ⟨_, htail⟩⟩

end Assembler

end PanelBus
