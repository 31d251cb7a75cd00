import MiniTcp.RoundTrip
import MiniTcp.Sockets.Internet

/-!
# The demo without sockets

`src/bin/minitcp.rs` pumps for ever and opens no socket.  Its tables stay empty, so that a
packet is answered by at most one other, and the answer depends on nothing but the packet.

Between two such processes a segment is answered by a reset and an echo request by a reply,
and there it ends.  A datagram is sent back as it came, whoever sent it: two processes that
face each other pass it back and forth as long as the wire does not lose it.
-/

namespace MiniTcp

/-- `loop { stack.pump_once(200) }` for as many rounds as the list has. -/
def Stack.pumpLoop : Stack → List Pump → Stack × List Bytes
  | s, [] => (s, [])
  | s, p :: pumps =>
      let (s₁, out) := s.pumpOnce p
      let (s₂, out') := s₁.pumpLoop pumps
      (s₂, out ++ out')

namespace Reflector

/-- What the demo writes when it has read a packet. -/
def reply (buf : Bytes) : Option Bytes := ((Stack.new 0).dispatchIpPacket 0 0 buf).2.head?

/-- The packet that is left when `n` processes have answered one another. -/
def hops : ℕ → Bytes → Option Bytes
  | 0, buf => some buf
  | n + 1, buf => (hops n buf).bind reply

/-! ## One packet -/

/-- The answer to a segment that no connection and no listener wants. -/
def tcpReply (ipHdr : IpHeader) (payload : Bytes) : List Bytes :=
  match TcpTable.acceptedSegment ipHdr payload with
  | none => []
  | some (seg, data) =>
      if hasFlag seg.flags tcpRst then []
      else [(TcpTable.sendRstForUnknown ipHdr seg data.length).packet.bytes]

theorem handleSegment_new (now : Instant) (iss : UInt32) (ipHdr : IpHeader) (payload : Bytes) :
    (TcpTable.new.handleSegment now iss ipHdr payload).1 = TcpTable.new ∧
      (TcpTable.new.handleSegment now iss ipHdr payload).2.map (fun m ↦ m.packet.bytes) =
        tcpReply ipHdr payload := by
  unfold TcpTable.handleSegment tcpReply
  cases TcpTable.acceptedSegment ipHdr payload with
  | none => exact ⟨rfl, rfl⟩
  | some accepted =>
      obtain ⟨seg, data⟩ := accepted
      have hnone : ¬ (hasFlag seg.flags tcpSyn ∧ ¬ hasFlag seg.flags tcpAck ∧
          (ipHdr.dstAddr, seg.dstPort) ∈ TcpTable.new.listeners) := by
        rintro ⟨-, -, hmem⟩
        cases hmem
      have hdemux : TcpTable.new.demux now iss ipHdr seg data =
          if hasFlag seg.flags tcpRst then (TcpTable.new, [])
          else (TcpTable.new, [TcpTable.sendRstForUnknown ipHdr seg data.length]) :=
        if_neg hnone
      dsimp only
      rw [hdemux]
      split_ifs <;> exact ⟨rfl, rfl⟩

/-- The datagram that is sent back when nobody waits for one. -/
def udpReply (ipHdr : IpHeader) (payload : Bytes) : List Bytes :=
  if payload.length < udpHeaderLen then []
  else
    (sendDatagram ipHdr.dstAddr (dstPortOf payload) ipHdr.srcAddr (srcPortOf payload)
      (payload.drop udpHeaderLen)).toList

theorem handleDatagram_new (ipHdr : IpHeader) (payload : Bytes) :
    UdpTable.new.handleDatagram ipHdr payload = (UdpTable.new, udpReply ipHdr payload) := by
  unfold UdpTable.handleDatagram udpReply
  split_ifs with hlen
  · rfl
  · exact if_neg Bool.false_ne_true

/-- What is written for a packet that has passed the checks, by its protocol. -/
def answer (ipHdr : IpHeader) (payload : Bytes) : List Bytes :=
  if ipHdr.protocol = 1 then handleIcmp ipHdr payload
  else if ipHdr.protocol = 17 then udpReply ipHdr payload
  else if ipHdr.protocol = 6 then tcpReply ipHdr payload
  else []

theorem answer_of_udp {ipHdr : IpHeader} (h : ipHdr.protocol = 17) (payload : Bytes) :
    answer ipHdr payload = udpReply ipHdr payload := by
  rw [answer, if_neg (by rw [h]; decide), if_pos h]

theorem answer_of_tcp {ipHdr : IpHeader} (h : ipHdr.protocol = 6) (payload : Bytes) :
    answer ipHdr payload = tcpReply ipHdr payload := by
  rw [answer, if_neg (by rw [h]; decide), if_neg (by rw [h]; decide), if_pos h]

theorem handlePacket_new (addr : UInt32) (now : Instant) (iss : UInt32) (ipHdr : IpHeader)
    (payload : Bytes) :
    (Stack.new addr).handlePacket now iss ipHdr payload =
      (Stack.new addr, answer ipHdr payload) := by
  unfold Stack.handlePacket answer
  split_ifs
  · rfl
  · change ({ Stack.new addr with udp := (UdpTable.new.handleDatagram ipHdr payload).1 },
      (UdpTable.new.handleDatagram ipHdr payload).2) = _
    rw [handleDatagram_new]
    rfl
  · obtain ⟨htable, hout⟩ := handleSegment_new now iss ipHdr payload
    change ({ Stack.new addr with tcp := (TcpTable.new.handleSegment now iss ipHdr payload).1 },
      (TcpTable.new.handleSegment now iss ipHdr payload).2.map _) = _
    rw [htable, hout]
    rfl
  · rfl

theorem length_answer_le (ipHdr : IpHeader) (payload : Bytes) :
    (answer ipHdr payload).length ≤ 1 := by
  unfold answer
  split_ifs
  · unfold handleIcmp
    split_ifs <;> simp
  · unfold udpReply
    split_ifs
    · simp
    · exact Option.length_toList_le
  · unfold tcpReply
    split
    · simp
    · split_ifs <;> simp
  · simp

theorem reply_of_none {buf : Bytes} (h : acceptedPacket buf = none) : reply buf = none := by
  unfold reply Stack.dispatchIpPacket
  rw [h]
  rfl

theorem reply_of_accepted {buf payload : Bytes} {ipHdr : IpHeader}
    (h : acceptedPacket buf = some (ipHdr, payload)) :
    reply buf = (answer ipHdr payload).head? := by
  unfold reply Stack.dispatchIpPacket
  rw [h]
  dsimp only
  rw [handlePacket_new]

theorem dispatch_new (addr : UInt32) (now : Instant) (iss : UInt32) (buf : Bytes) :
    (Stack.new addr).dispatchIpPacket now iss buf = (Stack.new addr, (reply buf).toList) := by
  unfold Stack.dispatchIpPacket
  cases hacc : acceptedPacket buf with
  | none =>
      rw [reply_of_none hacc]
      rfl
  | some accepted =>
      obtain ⟨ipHdr, payload⟩ := accepted
      dsimp only
      rw [handlePacket_new, reply_of_accepted hacc]
      have hlen := length_answer_le ipHdr payload
      generalize answer ipHdr payload = out at hlen
      rcases out with _ | ⟨packet, _ | ⟨next, rest⟩⟩
      · rfl
      · rfl
      · simp at hlen

/-! ## Whole runs -/

theorem pumpOnce_new (addr : UInt32) (p : Pump) :
    (Stack.new addr).pumpOnce p = (Stack.new addr, (p.packet.bind reply).toList) := by
  unfold Stack.pumpOnce
  cases p.packet with
  | none => rfl
  | some buf =>
      dsimp only
      rw [dispatch_new]
      exact congrArg (Prod.mk (Stack.new addr)) (List.append_nil _)

/-- Whatever arrives, the demo keeps nothing: after any number of rounds its stack is the one
it started with, and what it has written is one answer at most for each packet, which depends
neither on the clock nor on what came before. -/
theorem demo_keeps_nothing (addr : UInt32) (pumps : List Pump) :
    (Stack.new addr).pumpLoop pumps =
      (Stack.new addr, pumps.flatMap fun p ↦ (p.packet.bind reply).toList) := by
  induction pumps with
  | nil => rfl
  | cons p pumps ih =>
      rw [Stack.pumpLoop, pumpOnce_new]
      dsimp only
      rw [ih, List.flatMap_cons]

/-! ## Two processes that face each other -/

theorem acceptedPacket_append {hdr : IpHeader} (h : hdr.Plain) (payload : Bytes) :
    acceptedPacket (buildIpHeader hdr ++ payload) =
      some ({ hdr with headerChecksum := checksum16 (ipHeaderBytes hdr 0) }, payload) := by
  have hihl : ({ hdr with
      headerChecksum := checksum16 (ipHeaderBytes hdr 0) } : IpHeader).ihl = 5 := h.ihl
  have hlen := length_buildIpHeader hdr
  refine acceptedPacket_eq_some.mpr ⟨parseIpHeader_append h _ _,
    verifyIpChecksum_append hdr payload, ?_, ?_⟩
  · rw [hihl, List.length_append, hlen]
    exact Nat.le_add_right _ _
  · rw [hihl]
    exact (List.drop_left' hlen).symm

theorem reply_rst (ipHdr : IpHeader) (seg : TcpHeader) (dataLen : ℕ) :
    reply (TcpTable.sendRstForUnknown ipHdr seg dataLen).packet.bytes = none := by
  have hflag : hasFlag (TcpTable.sendRstForUnknown ipHdr seg dataLen).packet.hdr.flags tcpRst :=
    (TcpTable.isReset_sendRstForUnknown ipHdr seg dataLen).1
  generalize (TcpTable.sendRstForUnknown ipHdr seg dataLen).packet = p at hflag
  rw [Packet.bytes, reply_of_accepted (acceptedPacket_append p.plain_ipHeader p.segment),
    answer_of_tcp (by rfl), tcpReply]
  split
  · rfl
  · next seg' data hseg =>
      obtain ⟨hparse, -⟩ := TcpTable.acceptedSegment_spec hseg
      rw [Packet.parse_segment] at hparse
      obtain rfl := Option.some.inj hparse
      rw [if_pos hflag]
      rfl

theorem reply_echoReply {ipHdr : IpHeader} {buf payload : Bytes} (hversion : ipHdr.version = 4)
    (h : buf ∈ handleIcmp ipHdr payload) : reply buf = none := by
  unfold handleIcmp at h
  split_ifs at h
  · cases h
  · cases h
  · rw [List.mem_singleton.mp h]
    refine (reply_of_accepted (acceptedPacket_append (plain_echoReplyHeader hversion _) _)).trans ?_
    unfold answer handleIcmp
    rw [if_pos (by rfl)]
    split_ifs with hlen htype
    · rfl
    · rfl
    · exact absurd (show icmpEchoReply ≠ icmpEchoRequest by decide) htype

theorem reply_datagram {d : Sendto} {buf : Bytes} (h : d.packet = some buf) :
    reply buf = d.echo.packet := by
  obtain ⟨udpLen, csum, rfl⟩ := Sendto.packet_eq h
  rw [reply_of_accepted (acceptedPacket_append (plain_datagramHeader d.srcAddr d.dstAddr udpLen) _),
    answer_of_udp (by rfl), udpReply, if_neg (by rw [length_udpBytes]; omega), srcPortOf_udpBytes,
    dstPortOf_udpBytes, drop_udpBytes]
  exact Option.head?_toList

/-- The bytes are a datagram that reaches the UDP layer. -/
def IsDatagram (buf : Bytes) : Prop :=
  ∃ ipHdr payload, acceptedPacket buf = some (ipHdr, payload) ∧ ipHdr.protocol = 17 ∧
    udpHeaderLen ≤ payload.length

variable {buf : Bytes}

theorem hops_two_of_not_datagram (h : ¬ IsDatagram buf) : hops 2 buf = none := by
  change (reply buf).bind reply = none
  cases hacc : acceptedPacket buf with
  | none => rw [reply_of_none hacc]; rfl
  | some accepted =>
      obtain ⟨ipHdr, payload⟩ := accepted
      rw [reply_of_accepted hacc]
      obtain ⟨hparse, -⟩ := acceptedPacket_eq_some.mp hacc
      unfold answer
      split_ifs with hicmp hudp htcp
      · cases hout : (handleIcmp ipHdr payload).head? with
        | none => rfl
        | some out =>
            exact reply_echoReply (parseIpHeader_version hparse) (List.mem_of_head? hout)
      · have hshort : payload.length < udpHeaderLen :=
          not_le.mp fun hlen ↦ h ⟨ipHdr, payload, hacc, hudp, hlen⟩
        rw [udpReply, if_pos hshort]
        rfl
      · unfold tcpReply
        split
        · rfl
        · split_ifs
          · rfl
          · exact reply_rst _ _ _
      · rfl

/-- The first answer is a datagram with the addresses exchanged and the same data. -/
theorem reply_of_datagram (h : IsDatagram buf) :
    ∃ d : Sendto, d.data.length + udpHeaderLen ≤ buf.length ∧ reply buf = d.packet := by
  obtain ⟨ipHdr, payload, hacc, hproto, hmin⟩ := h
  obtain ⟨-, -, -, hpayload⟩ := acceptedPacket_eq_some.mp hacc
  refine ⟨⟨ipHdr.dstAddr, dstPortOf payload, ipHdr.srcAddr, srcPortOf payload,
    payload.drop udpHeaderLen⟩, ?_, ?_⟩
  · rw [List.length_drop, Nat.sub_add_cancel hmin, hpayload, List.length_drop]
    exact Nat.sub_le _ _
  · rw [reply_of_accepted hacc, answer_of_udp hproto, udpReply, if_neg (not_lt.mpr hmin)]
    exact Option.head?_toList

theorem exists_packet {d : Sendto} (h : d.data.length ≤ 65507) :
    ∃ packet, d.packet = some packet ∧
      packet.length = ipHeaderLen + (udpHeaderLen + d.data.length) := by
  refine ⟨_, sendDatagram_of_length d.srcAddr d.srcPort d.dstAddr d.dstPort h, ?_⟩
  rw [List.length_append, length_buildIpHeader, length_udpBytes]

theorem data_iterate_echo (d : Sendto) (n : ℕ) : (Sendto.echo^[n] d).data = d.data := by
  induction n with
  | zero => rfl
  | succ n ih =>
      rw [Function.iterate_succ_apply']
      exact ih

/-- From the first answer on, a datagram goes back and forth unchanged. -/
theorem hops_of_datagram {d : Sendto} (hlen : d.data.length ≤ 65507) (h : reply buf = d.packet)
    (n : ℕ) : hops (n + 1) buf = (Sendto.echo^[n] d).packet := by
  induction n with
  | zero => exact h
  | succ n ih =>
      rw [← data_iterate_echo d n] at hlen
      obtain ⟨packet, hpacket, -⟩ := exists_packet hlen
      rw [hops, ih, hpacket, Option.bind_some, reply_datagram hpacket,
        Function.iterate_succ_apply']

/-- Between two processes that answer each other a datagram never dies: the answers alternate
between two packets that the buffer of the other side can hold.  Of everything else there is
no second answer. -/
theorem datagram_goes_on_for_ever (buf : Bytes) :
    (IsDatagram buf → buf.length + ipHeaderLen ≤ readBufferLen → ∀ n, ∃ packet,
        packet.length ≤ readBufferLen ∧ hops (n + 1) buf = some packet ∧
          hops (n + 3) buf = some packet) ∧
      (¬ IsDatagram buf → hops 2 buf = none) := by
  refine ⟨fun h hfits n ↦ ?_, hops_two_of_not_datagram⟩
  obtain ⟨d, hdata, hreply⟩ := reply_of_datagram h
  simp only [udpHeaderLen, ipHeaderLen, readBufferLen] at hdata hfits
  have hlen : d.data.length ≤ 65507 := by omega
  obtain ⟨packet, hpacket, hlength⟩ := exists_packet (d := Sendto.echo^[n] d)
    (by rw [data_iterate_echo]; exact hlen)
  refine ⟨packet, ?_, ?_, ?_⟩
  · rw [hlength, data_iterate_echo]
    simp only [udpHeaderLen, ipHeaderLen, readBufferLen]
    omega
  · rw [hops_of_datagram hlen hreply, hpacket]
  · -- two exchanges of the addresses cancel out
    rw [hops_of_datagram hlen hreply, Function.iterate_add_apply]
    exact hpacket

theorem datagram_goes_on_for_ever_ping :
    ∃ buf, IsDatagram buf ∧ (∀ n, ∃ packet, packet.length ≤ readBufferLen ∧
        hops (n + 1) buf = some packet ∧ hops (n + 3) buf = some packet) ∧
      ¬ IsDatagram [] ∧ hops 2 [] = none := by
  have hacc := acceptedPacket_append (plain_datagramHeader 1 2 11) (udpBytes 5000 7 11 0 [1, 2, 3])
  have hlen : (buildIpHeader (datagramHeader 1 2 11) ++
      udpBytes 5000 7 11 0 [1, 2, 3]).length + ipHeaderLen ≤ readBufferLen := by
    rw [List.length_append, length_buildIpHeader, length_udpBytes]
    decide
  generalize buildIpHeader (datagramHeader 1 2 11) ++ udpBytes 5000 7 11 0 [1, 2, 3] = buf
    at hacc hlen
  have hbuf : IsDatagram buf := ⟨_, _, hacc, rfl, by decide⟩
  have hempty : ¬ IsDatagram [] := by
    rintro ⟨ipHdr, payload, hacc, -⟩
    cases hacc
  exact ⟨buf, hbuf, (datagram_goes_on_for_ever buf).1 hbuf hlen, hempty,
    (datagram_goes_on_for_ever []).2 hempty⟩

end Reflector

end MiniTcp
