import MiniTcp.Stack

/-!
# Damaged packets

One byte of a segment or of an IP header is replaced on the way.  The sum that was a
multiple of `65535` before is changed by less than that, so the checksum is not zero any
more and the packet is dropped before anything is looked up.
-/

namespace MiniTcp

variable {i : ℕ} {old new : UInt8}

theorem tcpChecksum_set {srcAddr dstAddr : UInt32} {segment : Bytes}
    (hlen : segment.length ≤ 65535) (hzero : tcpChecksum srcAddr dstAddr segment = 0)
    (hold : segment[i]? = some old) (hne : new ≠ old) :
    tcpChecksum srcAddr dstAddr (segment.set i new) ≠ 0 := by
  have hpseudo : (tcpPseudoHeader srcAddr dstAddr segment.length).length = 12 := rfl
  have hbound : (tcpPseudoHeader srcAddr dstAddr segment.length ++ segment).length ≤ 131074 := by
    rw [List.length_append, hpseudo]
    omega
  have hold' : (tcpPseudoHeader srcAddr dstAddr segment.length ++ segment)[12 + i]? = some old := by
    rw [List.getElem?_append_right (by omega), hpseudo, Nat.add_sub_cancel_left]
    exact hold
  have hset := checksum16_set hbound hzero hold' hne
  rw [List.set_append_right _ _ (by omega), hpseudo, Nat.add_sub_cancel_left] at hset
  rw [tcpChecksum, List.length_set]
  exact hset

theorem verifyIpChecksum_set {packet : Bytes} (hverify : verifyIpChecksum packet)
    (hi : i < ipHeaderLen) (hold : packet[i]? = some old) (hne : new ≠ old) :
    verifyIpChecksum (packet.set i new) = false := by
  unfold verifyIpChecksum at hverify ⊢
  split_ifs at hverify with hshort
  have hbound : (packet.take ipHeaderLen).length ≤ 131074 :=
    (List.length_take_le ..).trans (by decide)
  have hold' : (packet.take ipHeaderLen)[i]? = some old := by
    rw [List.getElem?_take_of_lt hi]
    exact hold
  have hset := checksum16_set hbound (eq_of_beq hverify) hold' hne
  rw [List.length_set, if_neg hshort, List.take_set]
  exact beq_eq_false_iff_ne.mpr hset

theorem TcpTable.handleSegment_of_checksum {ipHdr : IpHeader} {payload : Bytes}
    (h : tcpChecksum ipHdr.srcAddr ipHdr.dstAddr payload ≠ 0) (t : TcpTable) (now : Instant)
    (iss : UInt32) : t.handleSegment now iss ipHdr payload = (t, []) := by
  have hnone : acceptedSegment ipHdr payload = none := by
    unfold acceptedSegment
    cases parseTcpHeader payload with
    | none => exact ite_self none
    | some seg => exact (if_congr Iff.rfl rfl (if_pos h)).trans (ite_self none)
  rw [handleSegment, hnone]

theorem Stack.dispatchIpPacket_of_checksum {packet : Bytes}
    (h : verifyIpChecksum packet = false) (s : Stack) (now : Instant) (iss : UInt32) :
    s.dispatchIpPacket now iss packet = (s, []) := by
  have hnone : acceptedPacket packet = none := by
    unfold acceptedPacket
    cases parseIpHeader packet with
    | none => rfl
    | some ipHdr => exact if_neg (by rw [h]; exact Bool.false_ne_true)
  rw [dispatchIpPacket, hnone]

/-- One changed byte changes the sum by less than 65535, so the checksum does not verify. -/
theorem single_byte_corruption_detected :
    (∀ (t : TcpTable) (now : Instant) (iss : UInt32) (ipHdr : IpHeader) (segment : Bytes) (i : ℕ)
      (old new : UInt8), segment.length ≤ 65535 →
      tcpChecksum ipHdr.srcAddr ipHdr.dstAddr segment = 0 → segment[i]? = some old → new ≠ old →
      t.handleSegment now iss ipHdr (segment.set i new) = (t, [])) ∧
    ∀ (s : Stack) (now : Instant) (iss : UInt32) (packet : Bytes) (i : ℕ) (old new : UInt8),
      verifyIpChecksum packet → i < ipHeaderLen → packet[i]? = some old → new ≠ old →
      s.dispatchIpPacket now iss (packet.set i new) = (s, []) := by
  constructor
  · intro t now iss ipHdr segment i old new hlen hzero hold hne
    exact TcpTable.handleSegment_of_checksum (tcpChecksum_set hlen hzero hold hne) t now iss
  · intro s now iss packet i old new hverify hi hold hne
    exact Stack.dispatchIpPacket_of_checksum (verifyIpChecksum_set hverify hi hold hne) s now iss

/-- A SYN with data for a listening port, damaged in its sequence number or in its time
to live. -/
theorem single_byte_corruption_detected_syn :
    let packet := Packet.bytes ⟨2, 1, ⟨5000, 80, 7, 0, 0x50, tcpSyn, 1000, 0, 0⟩, [9]⟩
    let ipHdr : IpHeader := ⟨4, 5, 0, 41, 0, 0, 0, 64, 6, 0, 2, 1⟩
    let t := (TcpTable.new.listen 1 80 false).1
    t.handleSegment 0 100 ipHdr ((packet.drop 20).set 7 8) = (t, []) ∧
      (Stack.new 1).dispatchIpPacket 0 100 (packet.set 8 63) = (Stack.new 1, []) := by
  intro packet ipHdr t
  have hzero : tcpChecksum ipHdr.srcAddr ipHdr.dstAddr (packet.drop 20) = 0 := by decide +kernel
  have hverify : verifyIpChecksum packet := by decide +kernel
  exact ⟨single_byte_corruption_detected.1 t 0 100 ipHdr _ 7 7 8 (by decide) hzero (by decide)
      (by decide),
    single_byte_corruption_detected.2 _ 0 100 packet 8 64 63 hverify (by decide)
      (by decide +kernel) (by decide)⟩

end MiniTcp
