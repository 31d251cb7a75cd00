import MiniTcp.Lib.AssocMap
import MiniTcp.Tcp.Header

/-!
# One TCP connection

The protocol control block of `src/tcp.rs` and the functions that act on it.  A
function that sends returns the segments it sends next to the new control block.
`Instant::now()` is a parameter, read once per call of the public interface;
instants and durations are natural numbers of nanoseconds.  The `trace` output is
not modelled.
-/

namespace MiniTcp

abbrev Instant := ℕ
abbrev Duration := ℕ

def fromMillis (n : ℕ) : Duration := n * 1000000

def mss : ℕ := 1400
def initialRto : Duration := fromMillis 500
def maxRto : Duration := fromMillis 8000
def maxRetries : ℕ := 6
def timeWaitDuration : Duration := fromMillis 4000
def defaultRecvBufferCap : ℕ := 65536
def defaultSendBufferCap : ℕ := 2 ^ 20

inductive TcpState where
  | closed
  | listen
  | synSent
  | synRcvd
  | established
  | finWait1
  | finWait2
  | closing
  | timeWait
  | closeWait
  | lastAck
  deriving DecidableEq, Repr

structure ConnectionKey where
  localAddr : UInt32
  localPort : UInt16
  remoteAddr : UInt32
  remotePort : UInt16
  deriving DecidableEq, Repr

structure UnackedSegment where
  seq : UInt32
  flags : UInt8
  data : Bytes
  sentAt : Instant
  rto : Duration
  retryCount : ℕ
  deriving DecidableEq, Repr

structure TcpConnection where
  state : TcpState
  localAddr : UInt32
  remoteAddr : UInt32
  localPort : UInt16
  remotePort : UInt16
  iss : UInt32
  sndUna : UInt32
  sndNxt : UInt32
  sndWnd : UInt32
  irs : UInt32
  rcvNxt : UInt32
  retransmitQueue : List UnackedSegment
  oooBuffer : AssocMap UInt32 Bytes
  recvBuffer : Bytes
  sendPending : Bytes
  timeWaitDeadline : Instant
  probeDeadline : Option Instant
  probeRto : Duration
  pendingClose : Bool
  recvBufferCap : ℕ
  sendPendingCap : ℕ
  deriving DecidableEq

def TcpConnection.new (now : Instant) : TcpConnection where
  state := .closed
  localAddr := 0
  remoteAddr := 0
  localPort := 0
  remotePort := 0
  iss := 0
  sndUna := 0
  sndNxt := 0
  sndWnd := 65535
  irs := 0
  rcvNxt := 0
  retransmitQueue := []
  oooBuffer := ∅
  recvBuffer := []
  sendPending := []
  timeWaitDeadline := now
  probeDeadline := none
  probeRto := initialRto
  pendingClose := false
  recvBufferCap := defaultRecvBufferCap
  sendPendingCap := defaultSendBufferCap

/-- Which call of the source sent a segment. -/
inductive Origin where
  /-- `queue_and_send`: the first transmission of SYN, data or FIN -/
  | queued
  /-- `tick`: the front of the retransmission queue once more -/
  | retransmit
  /-- `tick`: the persist probe -/
  | probe
  /-- `send_ack_only` -/
  | ack
  /-- `send_rst_for_unknown` -/
  | rst
  deriving DecidableEq, Repr

/-- A packet together with the call that sent it. -/
structure Emission where
  origin : Origin
  packet : Packet
  deriving DecidableEq, Repr

namespace TcpConnection

/-! ## Sending -/

def bufferedBytes (c : TcpConnection) : ℕ :=
  c.recvBuffer.length + c.oooBuffer.weight List.length

def advertiseWindow (c : TcpConnection) : UInt16 :=
  let used := c.bufferedBytes
  let cap := c.recvBufferCap
  if used ≥ cap then 0 else UInt16.ofNat (min (cap - used) 65535)

def sendSegment (c : TcpConnection) (flags : UInt8) (seq : UInt32) (data : Bytes) : Packet where
  srcAddr := c.localAddr
  dstAddr := c.remoteAddr
  hdr :=
    { srcPort := c.localPort
      dstPort := c.remotePort
      seqNum := seq
      ackNum := if hasFlag flags tcpAck then c.rcvNxt else 0
      dataOffsetReserved := (5 : UInt8) <<< 4
      flags := flags
      window := c.advertiseWindow
      checksum := 0
      urgentPtr := 0 }
  data := data

end TcpConnection

def consumed (flags : UInt8) (len : ℕ) : UInt32 :=
  let n := UInt32.ofNat len
  let n := if hasFlag flags tcpSyn then n + 1 else n
  if hasFlag flags tcpFin then n + 1 else n

def UnackedSegment.endSeq (u : UnackedSegment) : UInt32 := u.seq + consumed u.flags u.data.length

namespace TcpConnection

def queueAndSend (now : Instant) (flags : UInt8) (data : Bytes) (c : TcpConnection) :
    TcpConnection × List Emission :=
  let seq := c.sndNxt
  ({ c with
      retransmitQueue := c.retransmitQueue ++ [⟨seq, flags, data, now, initialRto, 0⟩]
      sndNxt := c.sndNxt + consumed flags data.length },
    [⟨.queued, c.sendSegment flags seq data⟩])

def sendAckOnly (c : TcpConnection) : Emission := ⟨.ack, c.sendSegment tcpAck c.sndNxt []⟩

def removeAcked (c : TcpConnection) (newUna : UInt32) : TcpConnection :=
  { c with retransmitQueue := c.retransmitQueue.dropWhile fun u ↦ u.endSeq ≤ newUna }

def processAck (c : TcpConnection) (seg : TcpHeader) : TcpConnection :=
  if hasFlag seg.flags tcpAck then
    let c := if seg.ackNum > c.sndUna then
        removeAcked { c with sndUna := seg.ackNum } seg.ackNum
      else c
    -- the window is taken from every acknowledgement, also from an old one
    let c := { c with sndWnd := seg.window.toUInt32 }
    if c.sndWnd ≠ 0 then { c with probeDeadline := none, probeRto := initialRto } else c
  else c

def bytesInFlight (c : TcpConnection) : UInt32 := c.sndNxt - c.sndUna

/-- The length of the next chunk `flush_send` takes from `send_pending`; zero when
the loop stops. -/
def chunkLen (c : TcpConnection) : ℕ :=
  if c.sendPending.isEmpty then 0
  else if c.bytesInFlight ≥ c.sndWnd then 0
  else
    let available := (c.sndWnd - c.bytesInFlight).toNat
    min (min mss available) c.sendPending.length

def sendChunk (now : Instant) (n : ℕ) (c : TcpConnection) : TcpConnection × List Emission :=
  let (c', out) := c.queueAndSend now (tcpAck ||| tcpPsh) (c.sendPending.take n)
  ({ c' with sendPending := c'.sendPending.drop n }, out)

/-- The window loop.  Every round takes at least one byte, so `send_pending`'s
length bounds the rounds. -/
def flushLoop (now : Instant) : ℕ → TcpConnection → TcpConnection × List Emission
  | 0, c => (c, [])
  | fuel + 1, c =>
      if c.chunkLen = 0 then (c, [])
      else
        let (c', out) := c.sendChunk now c.chunkLen
        let (c'', out') := flushLoop now fuel c'
        (c'', out ++ out')

def armProbe (now : Instant) (c : TcpConnection) : TcpConnection :=
  if c.sndWnd = 0 ∧ c.sendPending ≠ [] then
    { c with probeDeadline := some (c.probeDeadline.getD (now + initialRto)) }
  else c

def sendDeferredFin (now : Instant) (c : TcpConnection) : TcpConnection × List Emission :=
  if c.pendingClose ∧ c.sendPending = [] then
    match c.state with
    | .established =>
        let (c', out) := c.queueAndSend now (tcpFin ||| tcpAck) []
        ({ c' with state := .finWait1, pendingClose := false }, out)
    | .closeWait =>
        let (c', out) := c.queueAndSend now (tcpFin ||| tcpAck) []
        ({ c' with state := .lastAck, pendingClose := false }, out)
    -- not reached from `flush_send`
    | _ => ({ c with pendingClose := false }, [])
  else (c, [])

def flushSend (now : Instant) (c : TcpConnection) : TcpConnection × List Emission :=
  if c.state = .established ∨ c.state = .closeWait then
    let c₁ := c.armProbe now
    let (c₂, out) := flushLoop now c₁.sendPending.length c₁
    let (c₃, fin) := c₂.sendDeferredFin now
    (c₃, out ++ fin)
  else (c, [])

/-! ## Receiving -/

def appendInOrder (payload : Bytes) (c : TcpConnection) : TcpConnection :=
  { c with
    recvBuffer := c.recvBuffer ++ payload
    rcvNxt := c.rcvNxt + UInt32.ofNat payload.length }

/-- Splice in buffered segments that have become contiguous; tells whether there
were any.  Every round removes an entry, so their number bounds the rounds. -/
def splice : ℕ → TcpConnection → TcpConnection × Bool
  | 0, c => (c, false)
  | fuel + 1, c =>
      match c.oooBuffer.lookup c.rcvNxt with
      | none => (c, false)
      | some data =>
          ((splice fuel (appendInOrder data
            { c with oooBuffer := AList.erase c.rcvNxt c.oooBuffer })).1, true)

structure Received where
  conn : TcpConnection
  out : List Emission
  fin : Bool

def receiveDataAndMaybeFin (c : TcpConnection) (seg : TcpHeader) (payload : Bytes) : Received :=
  let hasFin := hasFlag seg.flags tcpFin
  if seg.seqNum = c.rcvNxt then
    -- `recv_buffer_cap` is not looked at here
    let c₁ := if payload.isEmpty then c else c.appendInOrder payload
    let (c₂, spliced) := splice c₁.oooBuffer.entries.length c₁
    let c₃ := if hasFin then { c₂ with rcvNxt := c₂.rcvNxt + 1 } else c₂
    let shouldAck := !payload.isEmpty || spliced || hasFin
    { conn := c₃, out := if shouldAck then [c₃.sendAckOnly] else [], fin := hasFin }
  else if seg.seqNum > c.rcvNxt then
    let c₁ := if !payload.isEmpty && c.bufferedBytes + payload.length ≤ c.recvBufferCap then
        { c with oooBuffer := AList.insert seg.seqNum payload c.oooBuffer }
      else c
    { conn := c₁, out := [c₁.sendAckOnly], fin := false }
  else
    let shouldAck := !payload.isEmpty || hasFin
    { conn := c, out := if shouldAck then [c.sendAckOnly] else [], fin := false }

/-! ## The state machine -/

/-- What one segment does to a connection: the new control block, the segments
sent, whether the key joins the accept queue, and whether the peer's FIN was
consumed. -/
structure SegmentResult where
  conn : TcpConnection
  out : List Emission
  enqueue : Bool
  fin : Bool

def synSentSegment (c : TcpConnection) (seg : TcpHeader) : SegmentResult :=
  if hasFlag seg.flags tcpSyn && hasFlag seg.flags tcpAck && seg.ackNum == c.sndNxt then
    let c₁ := removeAcked
      { c with
        irs := seg.seqNum
        rcvNxt := seg.seqNum + 1
        sndUna := seg.ackNum
        sndWnd := seg.window.toUInt32 } seg.ackNum
    let c₂ := { c₁ with state := .established }
    ⟨c₂, [c₂.sendAckOnly], false, false⟩
  else ⟨c, [], false, false⟩

def synRcvdSegment (c : TcpConnection) (seg : TcpHeader) (payload : Bytes) : SegmentResult :=
  if hasFlag seg.flags tcpAck && seg.ackNum == c.sndNxt then
    let c₁ := removeAcked { c with sndUna := seg.ackNum } seg.ackNum
    let c₂ := { c₁ with sndWnd := seg.window.toUInt32, state := .established }
    if !payload.isEmpty || hasFlag seg.flags tcpFin then
      let r := c₂.receiveDataAndMaybeFin seg payload
      ⟨if r.fin then { r.conn with state := .closeWait } else r.conn, r.out, true, r.fin⟩
    else ⟨c₂, [], true, false⟩
  else ⟨c, [], false, false⟩

def establishedSegment (now : Instant) (c : TcpConnection) (seg : TcpHeader)
    (payload : Bytes) : SegmentResult :=
  let r := (c.processAck seg).receiveDataAndMaybeFin seg payload
  let c₁ := if r.fin then { r.conn with state := .closeWait } else r.conn
  let (c₂, out) := c₁.flushSend now
  ⟨c₂, r.out ++ out, false, r.fin⟩

def enterTimeWait (now : Instant) (c : TcpConnection) : TcpConnection :=
  { c with state := .timeWait, timeWaitDeadline := now + timeWaitDuration }

def finWait1Segment (now : Instant) (c : TcpConnection) (seg : TcpHeader)
    (payload : Bytes) : SegmentResult :=
  let c₁ := c.processAck seg
  let ourFinAcked := hasFlag seg.flags tcpAck && seg.ackNum == c₁.sndNxt
  let r := c₁.receiveDataAndMaybeFin seg payload
  let c₂ :=
    if ourFinAcked && r.fin then r.conn.enterTimeWait now
    else if ourFinAcked then { r.conn with state := .finWait2 }
    else if r.fin then { r.conn with state := .closing }
    else r.conn
  ⟨c₂, r.out, false, r.fin⟩

def finWait2Segment (now : Instant) (c : TcpConnection) (seg : TcpHeader)
    (payload : Bytes) : SegmentResult :=
  let r := (c.processAck seg).receiveDataAndMaybeFin seg payload
  ⟨if r.fin then r.conn.enterTimeWait now else r.conn, r.out, false, r.fin⟩

def closingSegment (now : Instant) (c : TcpConnection) (seg : TcpHeader) : SegmentResult :=
  let c₁ := c.processAck seg
  if hasFlag seg.flags tcpAck && seg.ackNum == c₁.sndNxt then
    ⟨c₁.enterTimeWait now, [], false, false⟩
  else ⟨c₁, [], false, false⟩

def closeWaitSegment (now : Instant) (c : TcpConnection) (seg : TcpHeader) : SegmentResult :=
  let (c₁, out) := (c.processAck seg).flushSend now
  ⟨c₁, out, false, false⟩

def lastAckSegment (c : TcpConnection) (seg : TcpHeader) : SegmentResult :=
  let c₁ := c.processAck seg
  if hasFlag seg.flags tcpAck && seg.ackNum == c₁.sndNxt then
    ⟨{ c₁ with state := .closed }, [], false, false⟩
  else ⟨c₁, [], false, false⟩

def timeWaitSegment (now : Instant) (c : TcpConnection) (seg : TcpHeader) : SegmentResult :=
  if hasFlag seg.flags tcpFin then
    ⟨{ c with timeWaitDeadline := now + timeWaitDuration }, [c.sendAckOnly], false, false⟩
  else ⟨c, [], false, false⟩

def processSegment (now : Instant) (c : TcpConnection) (seg : TcpHeader)
    (payload : Bytes) : SegmentResult :=
  if hasFlag seg.flags tcpRst ∧ c.state ≠ .closed ∧ c.state ≠ .listen then
    ⟨{ c with state := .closed }, [], false, false⟩
  else
    match c.state with
    | .synSent => c.synSentSegment seg
    | .synRcvd => c.synRcvdSegment seg payload
    | .established => c.establishedSegment now seg payload
    | .finWait1 => c.finWait1Segment now seg payload
    | .finWait2 => c.finWait2Segment now seg payload
    | .closing => c.closingSegment now seg
    | .closeWait => c.closeWaitSegment now seg
    | .lastAck => c.lastAckSegment seg
    | .timeWait => c.timeWaitSegment now seg
    | .closed => ⟨c, [], false, false⟩
    | .listen => ⟨c, [], false, false⟩

/-! ## Timers -/

def tickProbe (now : Instant) (c : TcpConnection) : TcpConnection × List Emission :=
  if c.state = .established ∨ c.state = .closeWait then
    match c.probeDeadline with
    | some deadline =>
        if now ≥ deadline then
          let rto := min (c.probeRto * 2) maxRto
          ({ c with probeRto := rto, probeDeadline := some (now + rto) },
            [⟨.probe, c.sendSegment tcpAck (c.sndUna - 1) [0]⟩])
        else (c, [])
    | none => (c, [])
  else ({ c with probeDeadline := none }, [])

/-- The front of the retransmission queue has timed out and has no retry left. -/
def givesUp (now : Instant) (c : TcpConnection) : Bool :=
  match c.retransmitQueue with
  | [] => false
  | front :: _ => now - front.sentAt ≥ front.rto && front.retryCount ≥ maxRetries

def retransmitFront (now : Instant) (c : TcpConnection) : TcpConnection × List Emission :=
  match c.retransmitQueue with
  | [] => (c, [])
  | front :: rest =>
      if now - front.sentAt ≥ front.rto then
        ({ c with
            retransmitQueue := { front with
              sentAt := now
              rto := min (front.rto * 2) maxRto
              retryCount := front.retryCount + 1 } :: rest },
          [⟨.retransmit, c.sendSegment front.flags front.seq front.data⟩])
      else (c, [])

def tick (now : Instant) (c : TcpConnection) : TcpConnection × List Emission :=
  if c.state = .timeWait then
    (if now ≥ c.timeWaitDeadline then { c with state := .closed } else c, [])
  else
    let (c₁, out₁) := c.tickProbe now
    if c₁.givesUp now then ({ c₁ with state := .closed }, out₁)
    else
      let (c₂, out₂) := c₁.retransmitFront now
      let (c₃, out₃) := c₂.flushSend now
      (c₃, out₁ ++ out₂ ++ out₃)

/-! ## The calls of the application -/

def acceptedPrefix (c : TcpConnection) (data : Bytes) : Bytes :=
  data.take (min data.length (c.sendPendingCap - c.sendPending.length))

def send (now : Instant) (data : Bytes) (c : TcpConnection) : TcpConnection × List Emission :=
  { c with sendPending := c.sendPending ++ c.acceptedPrefix data }.flushSend now

def returnedBytes (len : ℕ) (c : TcpConnection) : Bytes :=
  c.recvBuffer.take (min len c.recvBuffer.length)

def recv (len : ℕ) (c : TcpConnection) : TcpConnection :=
  { c with recvBuffer := c.recvBuffer.drop (min len c.recvBuffer.length) }

def close (now : Instant) (c : TcpConnection) : TcpConnection × List Emission :=
  match c.state with
  | .established | .closeWait => { c with pendingClose := true }.flushSend now
  -- the connection stays in the table until the next cleanup
  | .synSent | .listen => ({ c with state := .closed }, [])
  | _ => (c, [])

def setRecvCap (cap : ℕ) (c : TcpConnection) : TcpConnection := { c with recvBufferCap := cap }

def setSendCap (cap : ℕ) (c : TcpConnection) : TcpConnection := { c with sendPendingCap := cap }

/-! ## Opening -/

/-- The connection `connect` registers, and its SYN. -/
def activeOpen (now : Instant) (iss : UInt32) (key : ConnectionKey) :
    TcpConnection × List Emission :=
  queueAndSend now tcpSyn []
    { TcpConnection.new now with
      localAddr := key.localAddr
      localPort := key.localPort
      remoteAddr := key.remoteAddr
      remotePort := key.remotePort
      iss := iss
      sndUna := iss
      sndNxt := iss
      state := .synSent }

/-- The connection a SYN to a listening port creates, and its SYN,ACK. -/
def passiveOpen (now : Instant) (iss : UInt32) (key : ConnectionKey) (seg : TcpHeader) :
    TcpConnection × List Emission :=
  queueAndSend now (tcpSyn ||| tcpAck) []
    { TcpConnection.new now with
      localAddr := key.localAddr
      localPort := key.localPort
      remoteAddr := key.remoteAddr
      remotePort := key.remotePort
      irs := seg.seqNum
      rcvNxt := seg.seqNum + 1
      iss := iss
      sndUna := iss
      sndNxt := iss
      sndWnd := seg.window.toUInt32
      state := .synRcvd }

end TcpConnection

end MiniTcp
