import PanelBus.Checksum
/-!
# Checksums of whole frames

When a frame is sent, its checksum is computed from header and payload.  When it is received, the
checksum is cut out of the frame by offsets.  Both see the same octets.
-/

namespace PanelBus.Checksum

/-- The check of a whole frame is the check of its parts. -/
theorem verifyFrame_append (checksum : Checksum) (header data footer : Bytes) {octets : Bytes}
    (hwidth : octets.length = checksum.width) :
    checksum.verifyFrame (header ++ data ++ octets ++ footer) header.length footer.length =
      checksum.verify header data octets := by
  have hlength : (header ++ data ++ octets ++ footer).length =
      header.length + data.length + checksum.width + footer.length := by
    simp only [List.length_append, hwidth]
  have hlong : ¬(header ++ data ++ octets ++ footer).length <
      header.length + checksum.width + footer.length := by
    omega
  have hend : (header ++ data ++ octets ++ footer).length - footer.length - checksum.width =
      (header ++ data).length := by
    rw [hlength, List.length_append]
    omega
  have htake : (header ++ data ++ octets ++ footer).take (header ++ data).length =
      header ++ data := by
    rw [List.append_assoc (header ++ data), List.take_left]
  have hdrop : ((header ++ data ++ octets ++ footer).drop (header ++ data).length).take
      checksum.width = octets := by
    rw [List.append_assoc (header ++ data), List.drop_left, ← hwidth, List.take_left]
  have hcompute : checksum.computeWithin (header ++ data ++ octets ++ footer) header.length
      (header ++ data).length = checksum.compute header data := by
    unfold computeWithin
    rw [htake]
    dsimp only
    rw [List.take_left, List.drop_left]
  unfold verifyFrame verify
  rw [if_neg hlong]
  simp only [hend, hdrop, hcompute]

theorem verify_compute (checksum : Checksum) (header data : Bytes) :
    checksum.verify header data (checksum.compute header data) = true := by
  unfold verify
  split
  · rfl
  · exact beq_self_eq_true _

/-- A frame that is sent is valid where it is received. -/
theorem verifyFrame_compute (checksum : Checksum) (header data footer : Bytes) :
    checksum.verifyFrame (header ++ data ++ checksum.compute header data ++ footer)
      header.length footer.length = true := by
  rw [verifyFrame_append checksum header data footer (length_compute checksum header data),
    verify_compute]

end PanelBus.Checksum
