import MiniTcp.Ip

/-!
# TCP segments on the wire

The header codec and checksum of `src/tcp.rs`, and the packet a table writes to
the TUN device.  `send_segment` and `send_rst_for_unknown` both serialise a
header, fill in the checksum and prepend an IPv4 header; that common tail is
`Packet.bytes`, so that the rest of the model can speak of the header and the
data themselves.
-/

open BigEndian OnesComplement

namespace MiniTcp

def tcpFin : UInt8 := 0x01
def tcpSyn : UInt8 := 0x02
def tcpRst : UInt8 := 0x04
def tcpPsh : UInt8 := 0x08
def tcpAck : UInt8 := 0x10

def hasFlag (flags flag : UInt8) : Bool := flags &&& flag != 0

def tcpHeaderLen : ℕ := 20

structure TcpHeader where
  srcPort : UInt16
  dstPort : UInt16
  seqNum : UInt32
  ackNum : UInt32
  dataOffsetReserved : UInt8
  flags : UInt8
  window : UInt16
  checksum : UInt16
  urgentPtr : UInt16
  deriving DecidableEq, Repr

def parseTcpHeader (bytes : Bytes) : Option TcpHeader :=
  if bytes.length < tcpHeaderLen then none else
  let b := fun i ↦ bytes.getD i 0
  some
    { srcPort := u16FromBe (b 0) (b 1)
      dstPort := u16FromBe (b 2) (b 3)
      seqNum := u32FromBe (b 4) (b 5) (b 6) (b 7)
      ackNum := u32FromBe (b 8) (b 9) (b 10) (b 11)
      dataOffsetReserved := b 12
      flags := b 13
      window := u16FromBe (b 14) (b 15)
      checksum := u16FromBe (b 16) (b 17)
      urgentPtr := u16FromBe (b 18) (b 19) }

def buildTcpHeader (hdr : TcpHeader) : Bytes :=
  u16ToBe hdr.srcPort ++ u16ToBe hdr.dstPort ++ u32ToBe hdr.seqNum ++ u32ToBe hdr.ackNum ++
    [hdr.dataOffsetReserved, hdr.flags] ++ u16ToBe hdr.window ++ u16ToBe hdr.checksum ++
    u16ToBe hdr.urgentPtr

def tcpPseudoHeader (srcAddr dstAddr : UInt32) (len : ℕ) : Bytes :=
  u32ToBe srcAddr ++ u32ToBe dstAddr ++ [0, 6] ++ u16ToBe (UInt16.ofNat len)

def tcpChecksum (srcAddr dstAddr : UInt32) (segment : Bytes) : UInt16 :=
  checksum16 (tcpPseudoHeader srcAddr dstAddr segment.length ++ segment)

@[simp] theorem length_buildTcpHeader (hdr : TcpHeader) :
    (buildTcpHeader hdr).length = tcpHeaderLen := rfl

theorem parse_build_append (hdr : TcpHeader) (data : Bytes) :
    parseTcpHeader (buildTcpHeader hdr ++ data) = some hdr := by
  have hlen : ¬ (buildTcpHeader hdr ++ data).length < tcpHeaderLen := by simp
  rw [parseTcpHeader, if_neg hlen]
  simp [buildTcpHeader, u16ToBe, u32ToBe]

/-! ## Packets -/

/-- A segment as handed to the TUN device, with the addresses of its IPv4 header.
The checksum field of `hdr` is zero: it is computed when the packet is written. -/
structure Packet where
  srcAddr : UInt32
  dstAddr : UInt32
  hdr : TcpHeader
  data : Bytes
  deriving DecidableEq, Repr

namespace Packet

def blank (p : Packet) : Bytes := buildTcpHeader { p.hdr with checksum := 0 } ++ p.data

def checksum (p : Packet) : UInt16 := tcpChecksum p.srcAddr p.dstAddr p.blank

def segment (p : Packet) : Bytes :=
  buildTcpHeader { p.hdr with checksum := p.checksum } ++ p.data

def ipHeader (p : Packet) : IpHeader where
  version := 4
  ihl := 5
  tos := 0
  totalLength := UInt16.ofNat (ipHeaderLen + p.segment.length)
  identification := 0
  flags := 0
  fragmentOffset := 0
  ttl := 64
  protocol := 6
  headerChecksum := 0
  srcAddr := p.srcAddr
  dstAddr := p.dstAddr

def bytes (p : Packet) : Bytes := buildIpHeader p.ipHeader ++ p.segment

theorem length_segment (p : Packet) : p.segment.length = tcpHeaderLen + p.data.length := by
  simp [segment]

theorem length_blank (p : Packet) : p.blank.length = tcpHeaderLen + p.data.length := by
  simp [blank]

def front (p : Packet) : Bytes :=
  tcpPseudoHeader p.srcAddr p.dstAddr (tcpHeaderLen + p.data.length) ++
    (u16ToBe p.hdr.srcPort ++ u16ToBe p.hdr.dstPort ++ u32ToBe p.hdr.seqNum ++
      u32ToBe p.hdr.ackNum ++ [p.hdr.dataOffsetReserved, p.hdr.flags] ++ u16ToBe p.hdr.window)

theorem front_append (p : Packet) (csum : UInt16) :
    tcpPseudoHeader p.srcAddr p.dstAddr (tcpHeaderLen + p.data.length) ++
        (buildTcpHeader { p.hdr with checksum := csum } ++ p.data) =
      p.front ++ u16ToBe csum ++ (u16ToBe p.hdr.urgentPtr ++ p.data) := by
  simp [front, buildTcpHeader]

/-- A written segment passes the receiver's checksum test. -/
theorem tcpChecksum_segment {p : Packet} (h : p.data.length ≤ 131042) :
    tcpChecksum p.srcAddr p.dstAddr p.segment = 0 := by
  have hfill : p.checksum =
      checksum16 (p.front ++ u16ToBe 0 ++ (u16ToBe p.hdr.urgentPtr ++ p.data)) := by
    rw [checksum, tcpChecksum, length_blank, blank, front_append]
  rw [tcpChecksum, length_segment, segment, front_append, hfill]
  have hfront : p.front.length = 28 := rfl
  apply checksum16_fill
  · rw [hfront]
  · rw [List.length_append, length_u16ToBe, hfront]
    omega

theorem parse_segment (p : Packet) :
    parseTcpHeader p.segment = some { p.hdr with checksum := p.checksum } :=
  parse_build_append _ _

theorem drop_segment (p : Packet) : p.segment.drop tcpHeaderLen = p.data := by
  rw [segment, List.drop_left' (length_buildTcpHeader _)]

theorem plain_ipHeader (p : Packet) : p.ipHeader.Plain := ⟨rfl, rfl, rfl, rfl⟩

theorem parse_bytes (p : Packet) : ∃ h : IpHeader, parseIpHeader p.bytes = some h ∧
    h.srcAddr = p.srcAddr ∧ h.dstAddr = p.dstAddr ∧
      p.bytes.drop (h.ihl.toNat * 4) = p.segment :=
  ⟨_, parseIpHeader_append p.plain_ipHeader _ _, rfl, rfl,
    List.drop_left' (length_buildIpHeader p.ipHeader)⟩

end Packet

end MiniTcp
