import MiniTcp.StackRun
import MiniTcp.Tcp.System

/-!
# What one packet can reach

A packet is answered to where it came from, and besides the connection or the binding
it is addressed to it changes nothing.
-/

open BigEndian

namespace MiniTcp

/-! ## The address of a packet -/

def srcPortOf (payload : Bytes) : UInt16 := u16FromBe (payload.getD 0 0) (payload.getD 1 0)

def dstPortOf (payload : Bytes) : UInt16 := u16FromBe (payload.getD 2 0) (payload.getD 3 0)

def ipPayload (ipHdr : IpHeader) (buf : Bytes) : Bytes := buf.drop (ipHdr.ihl.toNat * 4)

/-- The packet `p` has the addresses of `buf`, and for TCP and UDP its ports, the other
way round. -/
def Answers (buf p : Bytes) : Prop :=
  ∃ h h', parseIpHeader buf = some h ∧ parseIpHeader p = some h' ∧
    h'.srcAddr = h.dstAddr ∧ h'.dstAddr = h.srcAddr ∧ h'.protocol = h.protocol ∧
    (h.protocol = 6 ∨ h.protocol = 17 →
      srcPortOf (ipPayload h' p) = dstPortOf (ipPayload h buf) ∧
        dstPortOf (ipPayload h' p) = srcPortOf (ipPayload h buf))

/-- The 4-tuple of a TCP packet, as its receiver names it. -/
def inboundKey (buf : Bytes) : Option ConnectionKey :=
  match parseIpHeader buf with
  | none => none
  | some h =>
      if h.protocol = 6 then
        some ⟨h.dstAddr, dstPortOf (ipPayload h buf), h.srcAddr, srcPortOf (ipPayload h buf)⟩
      else none

/-- The address and port a UDP packet is sent to. -/
def inboundBinding (buf : Bytes) : Option (UInt32 × UInt16) :=
  match parseIpHeader buf with
  | none => none
  | some h => if h.protocol = 17 then some (h.dstAddr, dstPortOf (ipPayload h buf)) else none

theorem ports_of_parse {payload : Bytes} {seg : TcpHeader}
    (h : parseTcpHeader payload = some seg) :
    seg.srcPort = srcPortOf payload ∧ seg.dstPort = dstPortOf payload := by
  unfold parseTcpHeader at h
  split_ifs at h
  obtain rfl := Option.some.inj h
  exact ⟨rfl, rfl⟩

/-! ## The handlers -/

section Answers

variable {buf payload : Bytes} {ipHdr : IpHeader}

/-- A packet with a header of our own answers when its addresses and ports do. -/
theorem answers_build {hdr : IpHeader} {rest : Bytes} (hbuf : parseIpHeader buf = some ipHdr)
    (hplain : hdr.Plain) (hsrc : hdr.srcAddr = ipHdr.dstAddr) (hdst : hdr.dstAddr = ipHdr.srcAddr)
    (hproto : hdr.protocol = ipHdr.protocol)
    (hports : ipHdr.protocol = 6 ∨ ipHdr.protocol = 17 →
      srcPortOf rest = dstPortOf (ipPayload ipHdr buf) ∧
        dstPortOf rest = srcPortOf (ipPayload ipHdr buf)) :
    Answers buf (buildIpHeader hdr ++ rest) := by
  refine ⟨ipHdr, _, hbuf, parseIpHeader_append hplain _ rest, hsrc, hdst, hproto, ?_⟩
  have hrest : ipPayload { hdr with headerChecksum := checksum16 (ipHeaderBytes hdr 0) }
      (buildIpHeader hdr ++ rest) = rest := by
    unfold ipPayload
    dsimp only
    rw [hplain.ihl]
    exact List.drop_left' (length_buildIpHeader hdr)
  exact hrest.symm ▸ hports

theorem answers_handleIcmp {p : Bytes} (hbuf : parseIpHeader buf = some ipHdr)
    (hproto : ipHdr.protocol = 1) (hp : p ∈ handleIcmp ipHdr payload) : Answers buf p := by
  unfold handleIcmp at hp
  split_ifs at hp
  · cases hp
  · cases hp
  · rw [List.mem_singleton.mp hp]
    refine answers_build hbuf (plain_echoReplyHeader (parseIpHeader_version hbuf) _) rfl rfl
      hproto.symm ?_
    intro h
    rw [hproto] at h
    exact absurd h (by decide)

theorem srcPortOf_udpBytes (srcPort dstPort udpLen csum : UInt16) (data : Bytes) :
    srcPortOf (udpBytes srcPort dstPort udpLen csum data) = srcPort := by
  simp [srcPortOf, udpBytes, u16ToBe]

theorem dstPortOf_udpBytes (srcPort dstPort udpLen csum : UInt16) (data : Bytes) :
    dstPortOf (udpBytes srcPort dstPort udpLen csum data) = dstPort := by
  simp [dstPortOf, udpBytes, u16ToBe]

theorem answers_handleDatagram {t : UdpTable} {p : Bytes} (hbuf : parseIpHeader buf = some ipHdr)
    (hproto : ipHdr.protocol = 17)
    (hp : p ∈ (t.handleDatagram ipHdr (ipPayload ipHdr buf)).2) : Answers buf p := by
  unfold UdpTable.handleDatagram at hp
  dsimp only at hp
  split_ifs at hp
  · cases hp
  · cases hp
  · unfold sendDatagram at hp
    dsimp only at hp
    split_ifs at hp
    · cases hp
    · cases hp
    · rw [List.mem_singleton.mp hp]
      exact answers_build hbuf (plain_datagramHeader _ _ _) rfl rfl hproto.symm
        fun _ ↦ ⟨srcPortOf_udpBytes .., dstPortOf_udpBytes ..⟩

theorem answers_handleSegment {h : Host} (hh : h.Reachable {}) {now : Instant} {iss : UInt32}
    {m : Emission} (hbuf : parseIpHeader buf = some ipHdr) (hproto : ipHdr.protocol = 6)
    (hm : m ∈ (h.table.handleSegment now iss ipHdr (ipPayload ipHdr buf)).2) :
    Answers buf m.packet.bytes := by
  unfold TcpTable.handleSegment at hm
  split at hm
  · cases hm
  · next seg data hseg =>
      obtain ⟨hparse, -⟩ := TcpTable.acceptedSegment_spec hseg
      obtain ⟨hsrcPort, hdstPort⟩ := ports_of_parse hparse
      obtain ⟨hsrcPort', hdstPort'⟩ := ports_of_parse m.packet.parse_segment
      obtain ⟨hsrc, hsrcP, hdst, hdstP⟩ := ConnectionKey.mk.inj (hh.source_demux hm)
      exact answers_build hbuf m.packet.plain_ipHeader hsrc hdst hproto.symm
        fun _ ↦ ⟨hsrcPort'.symm.trans (hsrcP.trans hdstPort),
          hdstPort'.symm.trans (hdstP.trans hsrcPort)⟩

end Answers

theorem UdpTable.binding_deliver {t : UdpTable} {key k : UInt32 × UInt16} (hk : key ≠ k)
    (srcAddr : UInt32) (srcPort : UInt16) (data : Bytes) :
    (t.deliver key srcAddr srcPort data).binding k = t.binding k := by
  unfold deliver
  split
  · rfl
  · dsimp only
    split_ifs
    · rfl
    · exact (AssocMap.lookup_insert_eq _ _ _ _).trans (if_neg hk.symm)

theorem TcpTable.lookup_handleSegment {t : TcpTable} {k : ConnectionKey} {c : TcpConnection}
    {ipHdr : IpHeader} {payload : Bytes} (now : Instant) (iss : UInt32)
    (hc : t.lookup k = some c) (hopen : c.state ≠ .closed)
    (hk : (⟨ipHdr.dstAddr, dstPortOf payload, ipHdr.srcAddr, srcPortOf payload⟩ :
      ConnectionKey) ≠ k) :
    (t.handleSegment now iss ipHdr payload).1.lookup k = some c := by
  have hon : (TableEvent.segment now iss ipHdr payload).on k = none := by
    simp only [TableEvent.on]
    split
    · next seg data hseg =>
        obtain ⟨hsrc, hdst⟩ := ports_of_parse (acceptedSegment_spec hseg).1
        rw [segmentKey, hsrc, hdst, if_neg hk]
    · rfl
  have hopened : (TableEvent.segment now iss ipHdr payload).opened t k = none := by
    simp only [TableEvent.opened]
    split
    · rw [if_neg (by simp [hc])]
    · rfl
  have hstep := lookup_step_of_open hc hopened (by rwa [hon])
  rwa [hon] at hstep

namespace Stack

/-- The reach of one inbound packet. -/
structure Confined (s : Stack) (now : Instant) (iss : UInt32) (buf : Bytes) : Prop where
  answers : ∀ p ∈ (s.dispatchIpPacket now iss buf).2, Answers buf p
  connections : ∀ k c, s.tcp.lookup k = some c → c.state ≠ .closed → inboundKey buf ≠ some k →
    (s.dispatchIpPacket now iss buf).1.tcp.lookup k = some c
  bindings : ∀ k, inboundBinding buf ≠ some k →
    (s.dispatchIpPacket now iss buf).1.udp.binding k = s.udp.binding k
  listeners : (s.dispatchIpPacket now iss buf).1.tcp.listeners = s.tcp.listeners
  sockets : (s.dispatchIpPacket now iss buf).1.sockets = s.sockets

variable {s : Stack} {now : Instant} {iss : UInt32} {buf payload : Bytes} {ipHdr : IpHeader}

theorem answers_handlePacket (hs : s.Reachable) (hbuf : parseIpHeader buf = some ipHdr) :
    ∀ p ∈ (s.handlePacket now iss ipHdr (ipPayload ipHdr buf)).2, Answers buf p := by
  intro p hp
  unfold handlePacket at hp
  split_ifs at hp with hicmp hudp htcp
  · exact answers_handleIcmp hbuf hicmp hp
  · exact answers_handleDatagram hbuf hudp hp
  · obtain ⟨host, hh, htable⟩ := hs.hosted
    obtain ⟨m, hm, rfl⟩ := List.mem_map.mp hp
    rw [← htable] at hm
    exact answers_handleSegment hh hbuf htcp hm
  · cases hp

theorem lookup_handlePacket {k : ConnectionKey} {c : TcpConnection} (hc : s.tcp.lookup k = some c)
    (hopen : c.state ≠ .closed) (hbuf : parseIpHeader buf = some ipHdr)
    (hk : inboundKey buf ≠ some k) :
    (s.handlePacket now iss ipHdr (ipPayload ipHdr buf)).1.tcp.lookup k = some c := by
  unfold handlePacket
  split_ifs with hicmp hudp htcp
  · exact hc
  · exact hc
  · refine TcpTable.lookup_handleSegment now iss hc hopen fun heq ↦ hk ?_
    simp only [inboundKey, hbuf, if_pos htcp, heq]
  · exact hc

theorem binding_handlePacket {k : UInt32 × UInt16} (hbuf : parseIpHeader buf = some ipHdr)
    (hk : inboundBinding buf ≠ some k) :
    (s.handlePacket now iss ipHdr (ipPayload ipHdr buf)).1.udp.binding k = s.udp.binding k := by
  unfold handlePacket
  split_ifs with hicmp hudp htcp
  · rfl
  · have hne : (ipHdr.dstAddr, dstPortOf (ipPayload ipHdr buf)) ≠ k := by
      intro heq
      apply hk
      simp only [inboundBinding, hbuf, if_pos hudp, heq]
    unfold UdpTable.handleDatagram
    dsimp only
    split_ifs
    · rfl
    · exact UdpTable.binding_deliver hne ..
    · rfl
  · rfl
  · rfl

theorem listeners_handlePacket (s : Stack) (now : Instant) (iss : UInt32) (ipHdr : IpHeader)
    (payload : Bytes) :
    (s.handlePacket now iss ipHdr payload).1.tcp.listeners = s.tcp.listeners := by
  unfold handlePacket
  split_ifs
  · rfl
  · rfl
  · exact congrArg Prod.fst (s.tcp.config_handleSegment now iss ipHdr payload)
  · rfl

theorem sockets_handlePacket (s : Stack) (now : Instant) (iss : UInt32) (ipHdr : IpHeader)
    (payload : Bytes) : (s.handlePacket now iss ipHdr payload).1.sockets = s.sockets := by
  unfold handlePacket
  split_ifs <;> rfl

theorem dispatch_confined (hs : s.Reachable) (now : Instant) (iss : UInt32) (buf : Bytes) :
    s.Confined now iss buf := by
  cases hbuf : acceptedPacket buf with
  | none =>
      have hdrop : s.dispatchIpPacket now iss buf = (s, []) := by rw [dispatchIpPacket, hbuf]
      constructor <;> rw [hdrop]
      · intro p hp
        cases hp
      · intro k c hc _ _
        exact hc
      · intro k _
        rfl
  | some accepted =>
      obtain ⟨ipHdr, payload⟩ := accepted
      obtain ⟨hparse, -, -, rfl⟩ := acceptedPacket_eq_some.mp hbuf
      have hhandle : s.dispatchIpPacket now iss buf =
          s.handlePacket now iss ipHdr (ipPayload ipHdr buf) := by
        rw [dispatchIpPacket, hbuf]
        rfl
      constructor <;> rw [hhandle]
      · exact answers_handlePacket hs hparse
      · intro k c hc hopen hk
        exact lookup_handlePacket hc hopen hparse hk
      · intro k hk
        exact binding_handlePacket hparse hk
      · exact listeners_handlePacket ..
      · exact sockets_handlePacket ..

def echoRequest : Bytes := (sendDatagram 2 9 1 7 [1, 2, 3]).getD []

theorem dispatch_confined_echo :
    (listening.dispatchIpPacket 5 0 echoRequest).2.length = 1 ∧
      (listening.tcp.lookup ⟨1, 80, 2, 5000⟩).map (fun c ↦ c.state) = some .synRcvd ∧
      listening.Reachable ∧ listening.Confined 5 0 echoRequest :=
  ⟨by decide +kernel, by decide +kernel, reachable_listening,
    dispatch_confined reachable_listening 5 0 echoRequest⟩

end Stack

end MiniTcp
