import MiniTcp.Icmp
import MiniTcp.Tcp.Table
import MiniTcp.Udp

/-!
# Every packet comes back as it was sent

The four functions that write packets, `send_segment`, `send_rst_for_unknown`,
`send_datagram` and `handle_icmp`, against the parsers of the receive path.
-/

open BigEndian

namespace MiniTcp

/-- What the IP layer of the receiver makes of a packet. -/
structure ReceivedAs (bytes : Bytes) (hdr : IpHeader) (payload : Bytes) : Prop where
  parse : parseIpHeader bytes = some hdr
  checksum : verifyIpChecksum bytes = true
  totalLength : hdr.totalLength.toNat = bytes.length
  payload : bytes.drop (hdr.ihl.toNat * 4) = payload

theorem receivedAs_append {hdr : IpHeader} {payload : Bytes} (h : hdr.Plain)
    (hlen : hdr.totalLength.toNat = ipHeaderLen + payload.length) :
    ReceivedAs (buildIpHeader hdr ++ payload)
      { hdr with headerChecksum := checksum16 (ipHeaderBytes hdr 0) } payload where
  parse := parseIpHeader_append h _ _
  checksum := verifyIpChecksum_append hdr payload
  totalLength := by
    rw [List.length_append, length_buildIpHeader]
    exact hlen
  payload := by
    rw [show ({ hdr with headerChecksum := checksum16 (ipHeaderBytes hdr 0) } : IpHeader).ihl = 5
      from h.ihl]
    exact List.drop_left' (length_buildIpHeader hdr)

theorem Packet.receivedAs {p : Packet} (h : p.data.length ≤ 65495) :
    ReceivedAs p.bytes
      { p.ipHeader with headerChecksum := checksum16 (ipHeaderBytes p.ipHeader 0) } p.segment := by
  refine receivedAs_append p.plain_ipHeader ?_
  rw [Packet.ipHeader, Packet.length_segment, tcpHeaderLen, ipHeaderLen, UInt16.toNat_ofNat']
  omega

variable {data payload : Bytes} {ipHdr : IpHeader}

/-- The segment passes the checks of the receive path and is parsed to what was encoded. -/
def SegmentComesBack (c : TcpConnection) (flags : UInt8) (seq : UInt32) (data : Bytes) : Prop :=
  ∃ h segment hdr, ReceivedAs (c.sendSegment flags seq data).bytes h segment ∧
    h.protocol = 6 ∧ h.srcAddr = c.localAddr ∧ h.dstAddr = c.remoteAddr ∧
    tcpChecksum h.srcAddr h.dstAddr segment = 0 ∧ parseTcpHeader segment = some hdr ∧
    hdr.srcPort = c.localPort ∧ hdr.dstPort = c.remotePort ∧ hdr.seqNum = seq ∧
    hdr.ackNum = (if hasFlag flags tcpAck then c.rcvNxt else 0) ∧ hdr.flags = flags ∧
    hdr.window = c.advertiseWindow ∧ segment.drop tcpHeaderLen = data

def RstComesBack (ipHdr : IpHeader) (seg : TcpHeader) (dataLen : ℕ) : Prop :=
  ∃ h segment hdr,
    ReceivedAs (TcpTable.sendRstForUnknown ipHdr seg dataLen).packet.bytes h segment ∧
    h.protocol = 6 ∧ h.srcAddr = ipHdr.dstAddr ∧ h.dstAddr = ipHdr.srcAddr ∧
    tcpChecksum h.srcAddr h.dstAddr segment = 0 ∧ parseTcpHeader segment = some hdr ∧
    hdr.srcPort = seg.dstPort ∧ hdr.dstPort = seg.srcPort ∧
    hdr.seqNum = (if hasFlag seg.flags tcpAck then seg.ackNum else 0) ∧
    hdr.ackNum = (if hasFlag seg.flags tcpAck then 0
      else seg.seqNum + consumed seg.flags dataLen) ∧
    hdr.flags = (if hasFlag seg.flags tcpAck then tcpRst else tcpRst ||| tcpAck) ∧
    hdr.window = 0 ∧ segment.drop tcpHeaderLen = []

def DatagramComesBack (srcAddr : UInt32) (srcPort : UInt16) (dstAddr : UInt32)
    (dstPort : UInt16) (data : Bytes) : Prop :=
  ∃ bytes h datagram, sendDatagram srcAddr srcPort dstAddr dstPort data = some bytes ∧
    ReceivedAs bytes h datagram ∧ h.protocol = 17 ∧ h.srcAddr = srcAddr ∧ h.dstAddr = dstAddr ∧
    checksum16 (buildPseudoHeader h.srcAddr h.dstAddr (UInt16.ofNat datagram.length) ++
      datagram) = 0 ∧
    u16FromBe (datagram.getD 0 0) (datagram.getD 1 0) = srcPort ∧
    u16FromBe (datagram.getD 2 0) (datagram.getD 3 0) = dstPort ∧
    (u16FromBe (datagram.getD 4 0) (datagram.getD 5 0)).toNat = datagram.length ∧
    datagram.drop udpHeaderLen = data

/-- The reply carries the identifier, the sequence number and the payload of the request. -/
def EchoComesBack (ipHdr : IpHeader) (payload : Bytes) : Prop :=
  ∃ reply h message, handleIcmp ipHdr payload = [reply] ∧ ReceivedAs reply h message ∧
    h.protocol = 1 ∧ h.srcAddr = ipHdr.dstAddr ∧ h.dstAddr = ipHdr.srcAddr ∧
    checksum16 message = 0 ∧ message.getD 0 0 = icmpEchoReply ∧
    u16FromBe (message.getD 4 0) (message.getD 5 0) =
      u16FromBe (payload.getD 4 0) (payload.getD 5 0) ∧
    u16FromBe (message.getD 6 0) (message.getD 7 0) =
      u16FromBe (payload.getD 6 0) (payload.getD 7 0) ∧
    message.drop icmpHeaderLen = payload.drop icmpHeaderLen

theorem segmentComesBack (c : TcpConnection) (flags : UInt8) (seq : UInt32)
    (hlen : data.length ≤ 65495) : SegmentComesBack c flags seq data :=
  ⟨_, _, _, Packet.receivedAs hlen, rfl, rfl, rfl,
    Packet.tcpChecksum_segment (Nat.le_trans hlen (by decide)), Packet.parse_segment _, rfl, rfl,
    rfl, rfl, rfl, rfl, Packet.drop_segment _⟩

theorem rstComesBack (ipHdr : IpHeader) (seg : TcpHeader) (dataLen : ℕ) :
    RstComesBack ipHdr seg dataLen := by
  have hlen : (TcpTable.sendRstForUnknown ipHdr seg dataLen).packet.data.length ≤ 65495 :=
    Nat.zero_le _
  exact ⟨_, _, _, Packet.receivedAs hlen, rfl, rfl, rfl,
    Packet.tcpChecksum_segment (Nat.le_trans hlen (by decide)), Packet.parse_segment _, rfl, rfl,
    rfl, rfl, rfl, rfl, Packet.drop_segment _⟩

theorem datagramComesBack (srcAddr : UInt32) (srcPort : UInt16) (dstAddr : UInt32)
    (dstPort : UInt16) (hlen : data.length ≤ 65507) :
    DatagramComesBack srcAddr srcPort dstAddr dstPort data := by
  have hudp : (UInt16.ofNat (8 + data.length)).toNat = 8 + data.length := by
    rw [UInt16.toNat_ofNat']
    omega
  have htotal :
      (datagramHeader srcAddr dstAddr (UInt16.ofNat (8 + data.length))).totalLength.toNat =
        ipHeaderLen + (8 + data.length) := by
    simp only [datagramHeader, UInt16.toNat_add, hudp, ipHeaderLen, UInt16.toNat_ofNat']
    omega
  refine ⟨_, _, _, sendDatagram_of_length srcAddr srcPort dstAddr dstPort hlen,
    receivedAs_append (plain_datagramHeader _ _ _) ?_, rfl, rfl, rfl, ?_, ?_, ?_, ?_,
    drop_udpBytes _ _ _ _ _⟩
  · rw [length_udpBytes]
    exact htotal
  · rw [length_udpBytes]
    exact checksum16_udpBytes srcAddr srcPort dstAddr dstPort _ hlen
  · exact u16FromBe_toBe srcPort
  · exact u16FromBe_toBe dstPort
  · rw [length_udpBytes]
    exact (congrArg UInt16.toNat (u16FromBe_toBe _)).trans hudp

theorem echoComesBack {buf : Bytes} (hparse : parseIpHeader buf = some ipHdr)
    (hmin : icmpHeaderLen ≤ payload.length) (hlen : payload.length ≤ 65515)
    (hecho : payload.getD 0 0 = icmpEchoRequest) : EchoComesBack ipHdr payload := by
  have hbody (csum : UInt16) (i : ℕ) :
      (echoReplyBytes payload csum).getD (4 + i) 0 = payload.getD (4 + i) 0 := by
    have hget := congrArg (fun l : Bytes ↦ l.getD i 0) (drop_echoReplyBytes payload csum)
    simpa [List.getD_eq_getElem?_getD, List.getElem?_drop] using hget
  refine ⟨_, _, _, ?_, receivedAs_append (plain_echoReplyHeader ?_ payload.length) ?_, rfl, rfl,
    rfl, checksum16_echoReplyBytes hlen, rfl, ?_, ?_, ?_⟩
  · rw [handleIcmp, if_neg (by omega), if_neg (not_not.mpr hecho)]
  · exact parseIpHeader_version hparse
  · rw [length_echoReplyBytes _ hmin]
    simp only [echoReplyHeader, ipHeaderLen, UInt16.toNat_ofNat']
    omega
  · rw [hbody _ 0, hbody _ 1]
  · rw [hbody _ 2, hbody _ 3]
  · have hdrop := congrArg (List.drop 4) (drop_echoReplyBytes payload
      (checksum16 (echoReplyBytes payload 0)))
    simpa [List.drop_drop, icmpHeaderLen] using hdrop

/-- Every packet the stack writes passes the checks of the receive path and is parsed to
what was encoded. -/
theorem emitted_packets_come_back :
    (∀ (c : TcpConnection) (flags : UInt8) (seq : UInt32) (data : Bytes),
        data.length ≤ 65495 → SegmentComesBack c flags seq data) ∧
      (∀ (ipHdr : IpHeader) (seg : TcpHeader) (dataLen : ℕ), RstComesBack ipHdr seg dataLen) ∧
      (∀ (srcAddr : UInt32) (srcPort : UInt16) (dstAddr : UInt32) (dstPort : UInt16)
        (data : Bytes), data.length ≤ 65507 →
          DatagramComesBack srcAddr srcPort dstAddr dstPort data) ∧
      ∀ (buf : Bytes) (ipHdr : IpHeader) (payload : Bytes), parseIpHeader buf = some ipHdr →
        icmpHeaderLen ≤ payload.length → payload.length ≤ 65515 →
        payload.getD 0 0 = icmpEchoRequest → EchoComesBack ipHdr payload := by
  refine ⟨?_, ?_, ?_, ?_⟩
  · intro c flags seq data hlen
    exact segmentComesBack c flags seq hlen
  · intro ipHdr seg dataLen
    exact rstComesBack ipHdr seg dataLen
  · intro srcAddr srcPort dstAddr dstPort data hlen
    exact datagramComesBack srcAddr srcPort dstAddr dstPort hlen
  · intro buf ipHdr payload hparse hmin hlen hecho
    exact echoComesBack hparse hmin hlen hecho

theorem emitted_packets_come_back_small :
    SegmentComesBack (TcpConnection.new 0) tcpAck 7 [1, 2, 3] ∧
      DatagramComesBack 1 2000 2 53 [4, 5, 6] ∧
      ∃ ipHdr, parseIpHeader (datagramHeader 1 2 8 |> buildIpHeader) = some ipHdr ∧
        EchoComesBack ipHdr [8, 0, 0, 0, 0, 1, 0, 2, 9] := by
  obtain ⟨hseg, -, hdatagram, hecho⟩ := emitted_packets_come_back
  have hparse := parseIpHeader_append (plain_datagramHeader 1 2 8)
    (checksum16 (ipHeaderBytes (datagramHeader 1 2 8) 0)) []
  rw [List.append_nil] at hparse
  exact ⟨hseg _ _ _ _ (by decide), hdatagram _ _ _ _ _ (by decide), _, hparse,
    hecho _ _ _ hparse (by decide) (by decide) (by decide)⟩

end MiniTcp
