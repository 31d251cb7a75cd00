import Mathlib.Data.Finset.Insert
import MiniTcp.Tcp.Connection

/-!
# The connection table

`TcpTable` of `src/tcp.rs`: the connections by their 4-tuple, the listening
addresses and the accept queues.  `HashMap` iteration order is not fixed by the
source; here it is the order of the entries, and nothing is claimed about it.
The random initial sequence number is a parameter of the two calls that open a
connection.
-/

namespace MiniTcp

structure TcpTable where
  connections : AssocMap ConnectionKey TcpConnection
  listeners : Finset (UInt32 × UInt16)
  acceptQueues : AssocMap (UInt32 × UInt16) (List ConnectionKey)
  nextEphemeralPort : UInt16
  deriving DecidableEq

namespace TcpTable

def new : TcpTable where
  connections := ∅
  listeners := ∅
  acceptQueues := ∅
  nextEphemeralPort := 49152

def lookup (t : TcpTable) (key : ConnectionKey) : Option TcpConnection :=
  t.connections.lookup key

def cleanupClosedConnections (t : TcpTable) : TcpTable :=
  { t with connections := t.connections.retain fun c ↦ c.state != .closed }

def setConnection (t : TcpTable) (key : ConnectionKey) (c : TcpConnection) : TcpTable :=
  { t with connections := AList.insert key c t.connections }

def pushAccept (t : TcpTable) (addr : UInt32 × UInt16) (key : ConnectionKey) : TcpTable :=
  { t with acceptQueues :=
      AList.insert addr ((t.acceptQueues.lookup addr).getD [] ++ [key]) t.acceptQueues }

def processSegment (t : TcpTable) (now : Instant) (key : ConnectionKey) (c : TcpConnection)
    (seg : TcpHeader) (payload : Bytes) : TcpTable × List Emission :=
  let r := c.processSegment now seg payload
  let t₁ := t.setConnection key r.conn
  (if r.enqueue then t₁.pushAccept (c.localAddr, c.localPort) key else t₁, r.out)

def sendRstForUnknown (ipHdr : IpHeader) (seg : TcpHeader) (dataLen : ℕ) : Emission :=
  let incomingAck := hasFlag seg.flags tcpAck
  ⟨.rst,
    { srcAddr := ipHdr.dstAddr
      dstAddr := ipHdr.srcAddr
      hdr :=
        { srcPort := seg.dstPort
          dstPort := seg.srcPort
          seqNum := if incomingAck then seg.ackNum else 0
          ackNum := if incomingAck then 0 else seg.seqNum + consumed seg.flags dataLen
          dataOffsetReserved := (5 : UInt8) <<< 4
          flags := if incomingAck then tcpRst else tcpRst ||| tcpAck
          window := 0
          checksum := 0
          urgentPtr := 0 }
      data := [] }⟩

def segmentKey (ipHdr : IpHeader) (seg : TcpHeader) : ConnectionKey where
  localAddr := ipHdr.dstAddr
  localPort := seg.dstPort
  remoteAddr := ipHdr.srcAddr
  remotePort := seg.srcPort

/-- `handle_segment` after the header is parsed and the checksum verified. -/
def demux (t : TcpTable) (now : Instant) (iss : UInt32) (ipHdr : IpHeader) (seg : TcpHeader)
    (data : Bytes) : TcpTable × List Emission :=
  let key := segmentKey ipHdr seg
  match t.lookup key with
  | some c =>
      let (t₁, out) := t.processSegment now key c seg data
      (t₁.cleanupClosedConnections, out)
  | none =>
      if hasFlag seg.flags tcpSyn ∧ ¬ hasFlag seg.flags tcpAck ∧
          (ipHdr.dstAddr, seg.dstPort) ∈ t.listeners then
        let (c, out) := TcpConnection.passiveOpen now iss key seg
        (t.setConnection key c, out)
      else if hasFlag seg.flags tcpRst then (t, [])
      else (t, [sendRstForUnknown ipHdr seg data.length])

/-- The header and data of a well-formed segment whose checksum is right. -/
def acceptedSegment (ipHdr : IpHeader) (payload : Bytes) : Option (TcpHeader × Bytes) :=
  if payload.length < tcpHeaderLen then none else
  match parseTcpHeader payload with
  | none => none
  | some seg =>
      if tcpChecksum ipHdr.srcAddr ipHdr.dstAddr payload ≠ 0 then none
      else some (seg, payload.drop tcpHeaderLen)

def handleSegment (t : TcpTable) (now : Instant) (iss : UInt32) (ipHdr : IpHeader)
    (payload : Bytes) : TcpTable × List Emission :=
  match acceptedSegment ipHdr payload with
  | none => (t, [])
  | some (seg, data) => t.demux now iss ipHdr seg data

def tick (t : TcpTable) (now : Instant) : TcpTable × List Emission :=
  let t₁ := { t with connections := t.connections.mapVals fun c : TcpConnection ↦ (c.tick now).1 }
  (t₁.cleanupClosedConnections, t.connections.values.flatMap fun c ↦ (c.tick now).2)

def addressInUse (t : TcpTable) (addr : UInt32) (port : UInt16) (reuseAddr : Bool) : Bool :=
  if (addr, port) ∈ t.listeners then false
  else t.connections.values.any fun c ↦
    c.localAddr == addr && c.localPort == port && c.state != .closed &&
      !(c.state == .timeWait && reuseAddr)

def listen (t : TcpTable) (addr : UInt32) (port : UInt16) (reuseAddr : Bool) : TcpTable × Bool :=
  if t.addressInUse addr port reuseAddr then (t, false)
  else ({ t with listeners := insert (addr, port) t.listeners }, true)

def accept (t : TcpTable) (addr : UInt32) (port : UInt16) : TcpTable × Option ConnectionKey :=
  match t.acceptQueues.lookup (addr, port) with
  | some (key :: rest) =>
      ({ t with acceptQueues := AList.insert (addr, port) rest t.acceptQueues }, some key)
  | _ => (t, none)

def connect (t : TcpTable) (now : Instant) (iss localAddr remoteAddr : UInt32)
    (remotePort : UInt16) : TcpTable × List Emission × ConnectionKey :=
  let key : ConnectionKey := ⟨localAddr, t.nextEphemeralPort, remoteAddr, remotePort⟩
  let (c, out) := TcpConnection.activeOpen now iss key
  ({ t with nextEphemeralPort := t.nextEphemeralPort + 1 }.setConnection key c, out, key)

def withConnection (t : TcpTable) (key : ConnectionKey)
    (f : TcpConnection → TcpConnection × List Emission) : TcpTable × List Emission :=
  match t.lookup key with
  | none => (t, [])
  | some c => (t.setConnection key (f c).1, (f c).2)

def send (t : TcpTable) (now : Instant) (key : ConnectionKey) (data : Bytes) :
    TcpTable × List Emission :=
  t.withConnection key fun c ↦ c.send now data

def sendResult (t : TcpTable) (key : ConnectionKey) (data : Bytes) : ℕ :=
  match t.lookup key with
  | none => 0
  | some c => (c.acceptedPrefix data).length

def recv (t : TcpTable) (key : ConnectionKey) (len : ℕ) : TcpTable :=
  (t.withConnection key fun c ↦ (c.recv len, [])).1

def recvResult (t : TcpTable) (key : ConnectionKey) (len : ℕ) : Bytes :=
  match t.lookup key with
  | none => []
  | some c => c.returnedBytes len

def close (t : TcpTable) (now : Instant) (key : ConnectionKey) : TcpTable × List Emission :=
  t.withConnection key fun c ↦ c.close now

def setRecvCap (t : TcpTable) (key : ConnectionKey) (cap : ℕ) : TcpTable :=
  (t.withConnection key fun c ↦ (c.setRecvCap cap, [])).1

def setSendCap (t : TcpTable) (key : ConnectionKey) (cap : ℕ) : TcpTable :=
  (t.withConnection key fun c ↦ (c.setSendCap cap, [])).1

def isEstablished (t : TcpTable) (key : ConnectionKey) : Bool :=
  (t.lookup key).any fun c ↦ c.state == .established

def isClosed (t : TcpTable) (key : ConnectionKey) : Bool :=
  (t.lookup key).all fun c ↦ c.state == .closed

end TcpTable

end MiniTcp
