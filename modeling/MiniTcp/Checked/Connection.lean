import MiniTcp.Checked.Wire
import MiniTcp.Tcp.Bounds

/-!
# One connection with its panics

The functions of `src/tcp.rs` that act on a connection, with every slice, subtraction,
addition and `unwrap` that may panic, and with the packets they write.  Functions that
only compare and wrap around (`remove_acked`, `process_ack`, the splice loop) are taken
from the model without panics.
-/

open Panic

namespace MiniTcp.Checked

/-! ## Time -/

/-- An `Instant` has 63 bits of seconds. -/
def instantSize : ℕ := 2 ^ 63 * 10 ^ 9

/-- A `Duration` has 64 bits of seconds. -/
def durationSize : ℕ := 2 ^ 64 * 10 ^ 9

def addInstant (now : Instant) (d : Duration) : Except Panic Instant :=
  if now + d < instantSize then .ok (now + d) else .error .overflow

def mulDuration (d : Duration) (n : ℕ) : Except Panic Duration :=
  if d * n < durationSize then .ok (d * n) else .error .overflow

/-- The clock is not about to overflow. -/
def Ticking (now : Instant) : Prop := now + maxRto < instantSize

theorem addInstant_of_le {now : Instant} {d : Duration} (hnow : Ticking now) (hd : d ≤ maxRto) :
    addInstant now d = .ok (now + d) :=
  if_pos (lt_of_le_of_lt (Nat.add_le_add_left hd now) hnow)

theorem mulDuration_two {d : Duration} (hd : d ≤ maxRto) : mulDuration d 2 = .ok (d * 2) :=
  if_pos (lt_of_le_of_lt (Nat.mul_le_mul_right 2 hd) (by decide))

/-! ## Sending -/

def bufferedBytes (c : TcpConnection) : Except Panic ℕ := do
  let ooo ← sum 64 (c.oooBuffer.values.map List.length)
  add 64 c.recvBuffer.length ooo

def advertiseWindow (c : TcpConnection) : Except Panic UInt16 := do
  let used ← bufferedBytes c
  if used ≥ c.recvBufferCap then .ok 0
  else do
    let room ← sub c.recvBufferCap used
    return UInt16.ofNat (min room 65535)

def sendSegment (c : TcpConnection) (flags : UInt8) (seq : UInt32) (data : Bytes) :
    Except Panic Bytes := do
  let window ← advertiseWindow c
  sendPacket
    { srcAddr := c.localAddr
      dstAddr := c.remoteAddr
      hdr :=
        { srcPort := c.localPort
          dstPort := c.remotePort
          seqNum := seq
          ackNum := if hasFlag flags tcpAck then c.rcvNxt else 0
          dataOffsetReserved := (5 : UInt8) <<< 4
          flags := flags
          window := window
          checksum := 0
          urgentPtr := 0 }
      data := data }

def queueAndSend (now : Instant) (flags : UInt8) (data : Bytes) (c : TcpConnection) :
    Except Panic (TcpConnection × List Bytes) := do
  let packet ← sendSegment c flags c.sndNxt data
  return ({ c with
      retransmitQueue := c.retransmitQueue ++ [⟨c.sndNxt, flags, data, now, initialRto, 0⟩]
      sndNxt := c.sndNxt + consumed flags data.length }, [packet])

def sendAckOnly (c : TcpConnection) : Except Panic Bytes := sendSegment c tcpAck c.sndNxt []

def flushLoop (now : Instant) : ℕ → TcpConnection → Except Panic (TcpConnection × List Bytes)
  | 0, c => .ok (c, [])
  | fuel + 1, c =>
      if c.sendPending.isEmpty then .ok (c, [])
      else if c.bytesInFlight ≥ c.sndWnd then .ok (c, [])
      else do
        let available ← subU32 c.sndWnd c.bytesInFlight
        let chunkLen := min (min mss available.toNat) c.sendPending.length
        if chunkLen = 0 then .ok (c, [])
        else do
          let chunk ← slice c.sendPending 0 chunkLen
          let (c₁, out) ← queueAndSend now (tcpAck ||| tcpPsh) chunk c
          let pending ← drain c₁.sendPending chunkLen
          let (c₂, out') ← flushLoop now fuel { c₁ with sendPending := pending }
          return (c₂, out ++ out')

def armProbe (now : Instant) (c : TcpConnection) : Except Panic TcpConnection :=
  if c.sndWnd = 0 ∧ c.sendPending ≠ [] then do
    let deadline ← addInstant now initialRto
    return { c with probeDeadline := some (c.probeDeadline.getD deadline) }
  else .ok c

def sendDeferredFin (now : Instant) (c : TcpConnection) :
    Except Panic (TcpConnection × List Bytes) :=
  if c.pendingClose ∧ c.sendPending = [] then
    match c.state with
    | .established => do
        let (c₁, out) ← queueAndSend now (tcpFin ||| tcpAck) [] c
        return ({ c₁ with state := .finWait1, pendingClose := false }, out)
    | .closeWait => do
        let (c₁, out) ← queueAndSend now (tcpFin ||| tcpAck) [] c
        return ({ c₁ with state := .lastAck, pendingClose := false }, out)
    | _ => .ok ({ c with pendingClose := false }, [])
  else .ok (c, [])

def flushSend (now : Instant) (c : TcpConnection) : Except Panic (TcpConnection × List Bytes) :=
  if c.state = .established ∨ c.state = .closeWait then do
    let c₁ ← armProbe now c
    let (c₂, out) ← flushLoop now c₁.sendPending.length c₁
    let (c₃, fin) ← sendDeferredFin now c₂
    return (c₃, out ++ fin)
  else .ok (c, [])

/-! ## Receiving -/

def ackIf (shouldAck : Bool) (c : TcpConnection) : Except Panic (List Bytes) :=
  if shouldAck then do
    let packet ← sendAckOnly c
    return [packet]
  else .ok []

def bufferOutOfOrder (c : TcpConnection) (seg : TcpHeader) (payload : Bytes) :
    Except Panic TcpConnection :=
  if payload.isEmpty then .ok c
  else do
    let used ← bufferedBytes c
    let size ← add 64 used payload.length
    if size ≤ c.recvBufferCap then
      return { c with oooBuffer := AList.insert seg.seqNum payload c.oooBuffer }
    else return c

structure Received where
  conn : TcpConnection
  out : List Bytes
  fin : Bool

def receiveDataAndMaybeFin (c : TcpConnection) (seg : TcpHeader) (payload : Bytes) :
    Except Panic Received :=
  let hasFin := hasFlag seg.flags tcpFin
  if seg.seqNum = c.rcvNxt then do
    let c₁ := if payload.isEmpty then c else c.appendInOrder payload
    let (c₂, spliced) := c₁.splice c₁.oooBuffer.entries.length
    let c₃ := if hasFin then { c₂ with rcvNxt := c₂.rcvNxt + 1 } else c₂
    let out ← ackIf (!payload.isEmpty || spliced || hasFin) c₃
    return ⟨c₃, out, hasFin⟩
  else if seg.seqNum > c.rcvNxt then do
    let c₁ ← bufferOutOfOrder c seg payload
    let out ← ackIf true c₁
    return ⟨c₁, out, false⟩
  else do
    let out ← ackIf (!payload.isEmpty || hasFin) c
    return ⟨c, out, false⟩

/-! ## None of them panics while the buffers fit into memory -/

/-- The packets of the model without panics, as they are written. -/
def written (out : List Emission) : List Bytes := out.map fun m ↦ m.packet.bytes

theorem written_append (out out' : List Emission) :
    written (out ++ out') = written out ++ written out' := List.map_append

section

variable {c : TcpConnection} (hroom : c.bufferedBytes < 2 ^ 64)
include hroom

theorem bufferedBytes_ok : bufferedBytes c = .ok c.bufferedBytes := by
  have hooo : (c.oooBuffer.values.map List.length).sum < 2 ^ 64 :=
    lt_of_le_of_lt (Nat.le_add_left _ _) hroom
  rw [bufferedBytes, sum_of_lt hooo, ok_bind]
  exact add_of_lt hroom

theorem advertiseWindow_ok : advertiseWindow c = .ok c.advertiseWindow := by
  rw [advertiseWindow, bufferedBytes_ok hroom, ok_bind, TcpConnection.advertiseWindow]
  split_ifs with hfull
  · rfl
  · rw [sub_of_le (le_of_lt (not_le.mp hfull)), ok_bind]
    rfl

theorem sendSegment_ok (flags : UInt8) (seq : UInt32) {data : Bytes} (hdata : data.length ≤ mss) :
    sendSegment c flags seq data = .ok (c.sendSegment flags seq data).bytes := by
  rw [sendSegment, advertiseWindow_ok hroom, ok_bind]
  exact sendPacket_ok hdata

theorem queueAndSend_ok (now : Instant) (flags : UInt8) {data : Bytes} (hdata : data.length ≤ mss) :
    queueAndSend now flags data c =
      .ok ((c.queueAndSend now flags data).1, written (c.queueAndSend now flags data).2) := by
  rw [queueAndSend, sendSegment_ok hroom flags c.sndNxt hdata]
  rfl

theorem sendAckOnly_ok : sendAckOnly c = .ok c.sendAckOnly.packet.bytes :=
  sendSegment_ok hroom tcpAck c.sndNxt (Nat.zero_le _)

theorem ackIf_ok (shouldAck : Bool) :
    ackIf shouldAck c = .ok (written (if shouldAck then [c.sendAckOnly] else [])) := by
  cases shouldAck with
  | false => rfl
  | true =>
      rw [ackIf, if_pos rfl, sendAckOnly_ok hroom]
      rfl

theorem flushLoop_ok (now : Instant) (fuel : ℕ) :
    flushLoop now fuel c =
      .ok ((c.flushLoop now fuel).1, written (c.flushLoop now fuel).2) := by
  induction fuel generalizing c with
  | zero => rfl
  | succ fuel ih =>
      rw [flushLoop, TcpConnection.flushLoop, TcpConnection.chunkLen]
      by_cases hempty : c.sendPending.isEmpty
      · rw [if_pos hempty, if_pos hempty]
        rfl
      by_cases hwnd : c.bytesInFlight ≥ c.sndWnd
      · rw [if_neg hempty, if_neg hempty, if_pos hwnd, if_pos hwnd]
        rfl
      have hwnd' : c.bytesInFlight ≤ c.sndWnd := UInt32.le_of_lt (UInt32.not_le.mp hwnd)
      rw [if_neg hempty, if_neg hempty, if_neg hwnd, if_neg hwnd, subU32_of_le hwnd', ok_bind]
      dsimp only
      generalize hn : min (min mss (c.sndWnd - c.bytesInFlight).toNat) c.sendPending.length = n
      have hle : n ≤ c.sendPending.length := by omega
      have hmss : (c.sendPending.take n).length ≤ mss := by
        rw [List.length_take]
        omega
      split_ifs
      · rfl
      · have hrest := ih (c := (c.sendChunk now n).1) hroom
        rw [slice_of_le (Nat.zero_le _) hle, ok_bind, List.drop_zero,
          queueAndSend_ok hroom now _ hmss, ok_bind]
        dsimp only [TcpConnection.queueAndSend, TcpConnection.sendChunk] at hrest ⊢
        rw [drain_of_le hle, ok_bind, hrest, ok_bind]
        rw [written_append, pure_eq_ok]

theorem sendDeferredFin_ok (now : Instant) :
    sendDeferredFin now c =
      .ok ((c.sendDeferredFin now).1, written (c.sendDeferredFin now).2) := by
  have hempty : ([] : Bytes).length ≤ mss := Nat.zero_le _
  have hsend := queueAndSend_ok hroom now (tcpFin ||| tcpAck) hempty
  unfold sendDeferredFin TcpConnection.sendDeferredFin
  split_ifs
  · cases c.state with
    | established | closeWait =>
        dsimp only
        rw [hsend]
        rfl
    | _ => rfl
  · rfl

end

section

variable {now : Instant} {c : TcpConnection} (hnow : Ticking now)
include hnow

theorem armProbe_ok (c : TcpConnection) : armProbe now c = .ok (c.armProbe now) := by
  unfold armProbe TcpConnection.armProbe
  split_ifs
  · rw [addInstant_of_le hnow (by decide)]
    rfl
  · rfl

theorem flushSend_ok (hroom : c.bufferedBytes < 2 ^ 64) :
    flushSend now c = .ok ((c.flushSend now).1, written (c.flushSend now).2) := by
  unfold flushSend TcpConnection.flushSend
  split_ifs
  · have harm : (c.armProbe now).bufferedBytes < 2 ^ 64 := by
      unfold TcpConnection.armProbe
      split_ifs <;> exact hroom
    obtain ⟨queue, nxt, pending, hloop⟩ :=
      TcpConnection.flushLoop_eq now (c.armProbe now).sendPending.length (c.armProbe now)
    have hflushed : ((c.armProbe now).flushLoop now
        (c.armProbe now).sendPending.length).1.bufferedBytes < 2 ^ 64 := by
      rw [hloop]
      exact harm
    rw [armProbe_ok hnow, ok_bind, flushLoop_ok harm, ok_bind]
    dsimp only
    rw [sendDeferredFin_ok hflushed, ok_bind]
    rw [written_append, pure_eq_ok]
  · rfl

end

/-! ## The state machine -/

structure SegmentResult where
  conn : TcpConnection
  out : List Bytes
  enqueue : Bool

def enterTimeWait (now : Instant) (c : TcpConnection) : Except Panic TcpConnection := do
  let deadline ← addInstant now timeWaitDuration
  return { c with state := .timeWait, timeWaitDeadline := deadline }

def synSentSegment (c : TcpConnection) (seg : TcpHeader) : Except Panic SegmentResult :=
  if hasFlag seg.flags tcpSyn && hasFlag seg.flags tcpAck && seg.ackNum == c.sndNxt then do
    let c₁ := TcpConnection.removeAcked
      { c with
        irs := seg.seqNum
        rcvNxt := seg.seqNum + 1
        sndUna := seg.ackNum
        sndWnd := seg.window.toUInt32 } seg.ackNum
    let c₂ := { c₁ with state := .established }
    let ack ← sendAckOnly c₂
    return ⟨c₂, [ack], false⟩
  else .ok ⟨c, [], false⟩

def synRcvdSegment (c : TcpConnection) (seg : TcpHeader) (payload : Bytes) :
    Except Panic SegmentResult :=
  if hasFlag seg.flags tcpAck && seg.ackNum == c.sndNxt then
    let c₁ := TcpConnection.removeAcked { c with sndUna := seg.ackNum } seg.ackNum
    let c₂ := { c₁ with sndWnd := seg.window.toUInt32, state := .established }
    if !payload.isEmpty || hasFlag seg.flags tcpFin then do
      let r ← receiveDataAndMaybeFin c₂ seg payload
      return ⟨if r.fin then { r.conn with state := .closeWait } else r.conn, r.out, true⟩
    else .ok ⟨c₂, [], true⟩
  else .ok ⟨c, [], false⟩

def establishedSegment (now : Instant) (c : TcpConnection) (seg : TcpHeader) (payload : Bytes) :
    Except Panic SegmentResult := do
  let r ← receiveDataAndMaybeFin (c.processAck seg) seg payload
  let c₁ := if r.fin then { r.conn with state := .closeWait } else r.conn
  let (c₂, out) ← flushSend now c₁
  return ⟨c₂, r.out ++ out, false⟩

def finWait1Segment (now : Instant) (c : TcpConnection) (seg : TcpHeader) (payload : Bytes) :
    Except Panic SegmentResult := do
  let c₁ := c.processAck seg
  let ourFinAcked := hasFlag seg.flags tcpAck && seg.ackNum == c₁.sndNxt
  let r ← receiveDataAndMaybeFin c₁ seg payload
  let c₂ ←
    if ourFinAcked && r.fin then enterTimeWait now r.conn
    else if ourFinAcked then .ok { r.conn with state := .finWait2 }
    else if r.fin then .ok { r.conn with state := .closing }
    else .ok r.conn
  return ⟨c₂, r.out, false⟩

def finWait2Segment (now : Instant) (c : TcpConnection) (seg : TcpHeader) (payload : Bytes) :
    Except Panic SegmentResult := do
  let r ← receiveDataAndMaybeFin (c.processAck seg) seg payload
  let c₁ ← if r.fin then enterTimeWait now r.conn else .ok r.conn
  return ⟨c₁, r.out, false⟩

def closingSegment (now : Instant) (c : TcpConnection) (seg : TcpHeader) :
    Except Panic SegmentResult := do
  let c₁ := c.processAck seg
  let c₂ ← if hasFlag seg.flags tcpAck && seg.ackNum == c₁.sndNxt then enterTimeWait now c₁
    else .ok c₁
  return ⟨c₂, [], false⟩

def closeWaitSegment (now : Instant) (c : TcpConnection) (seg : TcpHeader) :
    Except Panic SegmentResult := do
  let (c₁, out) ← flushSend now (c.processAck seg)
  return ⟨c₁, out, false⟩

def lastAckSegment (c : TcpConnection) (seg : TcpHeader) : Except Panic SegmentResult :=
  let c₁ := c.processAck seg
  if hasFlag seg.flags tcpAck && seg.ackNum == c₁.sndNxt then
    .ok ⟨{ c₁ with state := .closed }, [], false⟩
  else .ok ⟨c₁, [], false⟩

def timeWaitSegment (now : Instant) (c : TcpConnection) (seg : TcpHeader) :
    Except Panic SegmentResult :=
  if hasFlag seg.flags tcpFin then do
    let ack ← sendAckOnly c
    let deadline ← addInstant now timeWaitDuration
    return ⟨{ c with timeWaitDeadline := deadline }, [ack], false⟩
  else .ok ⟨c, [], false⟩

def processSegment (now : Instant) (c : TcpConnection) (seg : TcpHeader) (payload : Bytes) :
    Except Panic SegmentResult :=
  if hasFlag seg.flags tcpRst ∧ c.state ≠ .closed ∧ c.state ≠ .listen then
    .ok ⟨{ c with state := .closed }, [], false⟩
  else
    match c.state with
    | .synSent => synSentSegment c seg
    | .synRcvd => synRcvdSegment c seg payload
    | .established => establishedSegment now c seg payload
    | .finWait1 => finWait1Segment now c seg payload
    | .finWait2 => finWait2Segment now c seg payload
    | .closing => closingSegment now c seg
    | .closeWait => closeWaitSegment now c seg
    | .lastAck => lastAckSegment c seg
    | .timeWait => timeWaitSegment now c seg
    | .closed => .ok ⟨c, [], false⟩
    | .listen => .ok ⟨c, [], false⟩

def Received.of (r : TcpConnection.Received) : Received := ⟨r.conn, written r.out, r.fin⟩

def SegmentResult.of (r : TcpConnection.SegmentResult) : SegmentResult :=
  ⟨r.conn, written r.out, r.enqueue⟩

section

variable {c : TcpConnection} {seg : TcpHeader} {payload : Bytes}

theorem bufferOutOfOrder_ok (hroom : c.bufferedBytes + payload.length < 2 ^ 64) :
    bufferOutOfOrder c seg payload =
      .ok (if !payload.isEmpty && c.bufferedBytes + payload.length ≤ c.recvBufferCap then
        { c with oooBuffer := AList.insert seg.seqNum payload c.oooBuffer } else c) := by
  unfold bufferOutOfOrder
  cases payload.isEmpty with
  | true => rfl
  | false =>
      have hused : c.bufferedBytes < 2 ^ 64 := lt_of_le_of_lt (Nat.le_add_right _ _) hroom
      rw [if_neg Bool.false_ne_true, bufferedBytes_ok hused, ok_bind, add_of_lt hroom, ok_bind]
      simp only [Bool.not_false, Bool.true_and, decide_eq_true_eq]
      split_ifs <;> rfl

theorem receive_ok (hroom : c.bufferedBytes + payload.length < 2 ^ 64) :
    receiveDataAndMaybeFin c seg payload =
      .ok (.of (c.receiveDataAndMaybeFin seg payload)) := by
  have hconn := lt_of_le_of_lt (TcpConnection.bufferedBytes_receive_le c seg payload) hroom
  unfold receiveDataAndMaybeFin
  unfold TcpConnection.receiveDataAndMaybeFin at hconn ⊢
  dsimp only at hconn ⊢
  by_cases heq : seg.seqNum = c.rcvNxt
  · rw [if_pos heq] at hconn ⊢
    rw [if_pos heq, ackIf_ok hconn]
    rfl
  · rw [if_neg heq] at hconn ⊢
    rw [if_neg heq]
    by_cases hgt : seg.seqNum > c.rcvNxt
    · rw [if_pos hgt] at hconn ⊢
      rw [if_pos hgt, bufferOutOfOrder_ok hroom, ok_bind, ackIf_ok hconn]
      rfl
    · rw [if_neg hgt] at hconn ⊢
      rw [if_neg hgt, ackIf_ok hconn]
      rfl

theorem synSentSegment_ok (hroom : c.bufferedBytes < 2 ^ 64) :
    synSentSegment c seg = .ok (.of (c.synSentSegment seg)) := by
  unfold synSentSegment TcpConnection.synSentSegment
  split_ifs
  · dsimp only
    rw [sendAckOnly_ok]
    · rfl
    · exact hroom
  · rfl

theorem synRcvdSegment_ok (hroom : c.bufferedBytes + payload.length < 2 ^ 64) :
    synRcvdSegment c seg payload = .ok (.of (c.synRcvdSegment seg payload)) := by
  unfold synRcvdSegment TcpConnection.synRcvdSegment
  dsimp only
  by_cases hack : hasFlag seg.flags tcpAck && seg.ackNum == c.sndNxt
  · rw [if_pos hack, if_pos hack]
    by_cases hdata : !payload.isEmpty || hasFlag seg.flags tcpFin
    · rw [if_pos hdata, if_pos hdata, receive_ok]
      · rfl
      · exact hroom
    · rw [if_neg hdata, if_neg hdata]
      rfl
  · rw [if_neg hack, if_neg hack]
    rfl

variable {now : Instant} (hnow : Ticking now)
include hnow

theorem enterTimeWait_ok (c : TcpConnection) : enterTimeWait now c = .ok (c.enterTimeWait now) := by
  rw [enterTimeWait, addInstant_of_le hnow (by decide)]
  rfl

theorem timeWaitSegment_ok (hroom : c.bufferedBytes < 2 ^ 64) :
    timeWaitSegment now c seg = .ok (.of (c.timeWaitSegment now seg)) := by
  unfold timeWaitSegment TcpConnection.timeWaitSegment
  split_ifs
  · rw [sendAckOnly_ok hroom, ok_bind, addInstant_of_le hnow (by decide)]
    rfl
  · rfl

theorem closingSegment_ok : closingSegment now c seg = .ok (.of (c.closingSegment now seg)) := by
  unfold closingSegment TcpConnection.closingSegment
  dsimp only
  rw [enterTimeWait_ok hnow]
  split_ifs <;> rfl

theorem closeWaitSegment_ok (hroom : (c.processAck seg).bufferedBytes < 2 ^ 64) :
    closeWaitSegment now c seg = .ok (.of (c.closeWaitSegment now seg)) := by
  rw [closeWaitSegment, flushSend_ok hnow hroom]
  rfl

section

variable (hroom : (c.processAck seg).bufferedBytes + payload.length < 2 ^ 64)
include hroom

theorem establishedSegment_ok :
    establishedSegment now c seg payload = .ok (.of (c.establishedSegment now seg payload)) := by
  have hreceived := lt_of_le_of_lt
    (TcpConnection.bufferedBytes_receive_le (c.processAck seg) seg payload) hroom
  rw [establishedSegment, receive_ok hroom, ok_bind, TcpConnection.establishedSegment]
  generalize (c.processAck seg).receiveDataAndMaybeFin seg payload = r at hreceived ⊢
  obtain ⟨conn, out, fin⟩ := r
  have hflush (c' : TcpConnection) (hc' : c'.bufferedBytes < 2 ^ 64) :
      (do
        let (c₂, out') ← flushSend now c'
        return (⟨c₂, written out ++ out', false⟩ : SegmentResult)) =
        .ok (.of ⟨(c'.flushSend now).1, out ++ (c'.flushSend now).2, false, fin⟩) := by
    rw [flushSend_ok hnow hc', ok_bind, SegmentResult.of]
    dsimp only
    rw [written_append, pure_eq_ok]
  cases fin with
  | false => exact hflush conn hreceived
  | true => exact hflush { conn with state := .closeWait } hreceived

theorem finWait1Segment_ok :
    finWait1Segment now c seg payload = .ok (.of (c.finWait1Segment now seg payload)) := by
  rw [finWait1Segment]
  dsimp only
  rw [receive_ok hroom, ok_bind, enterTimeWait_ok hnow, TcpConnection.finWait1Segment]
  generalize (c.processAck seg).receiveDataAndMaybeFin seg payload = r
  generalize (hasFlag seg.flags tcpAck && seg.ackNum == (c.processAck seg).sndNxt) = acked
  obtain ⟨conn, out, fin⟩ := r
  cases acked <;> cases fin <;> rfl

theorem finWait2Segment_ok :
    finWait2Segment now c seg payload = .ok (.of (c.finWait2Segment now seg payload)) := by
  rw [finWait2Segment, receive_ok hroom, ok_bind, enterTimeWait_ok hnow,
    TcpConnection.finWait2Segment]
  generalize (c.processAck seg).receiveDataAndMaybeFin seg payload = r
  obtain ⟨conn, out, fin⟩ := r
  cases fin <;> rfl

end

theorem processSegment_ok (hroom : c.bufferedBytes + payload.length < 2 ^ 64) :
    processSegment now c seg payload = .ok (.of (c.processSegment now seg payload)) := by
  have hc : c.bufferedBytes < 2 ^ 64 := lt_of_le_of_lt (Nat.le_add_right _ _) hroom
  have hinbound : (c.processAck seg).bufferedBytes = c.bufferedBytes :=
    TcpConnection.bufferedBytes_congr (c.processAck_inbound seg)
  unfold processSegment TcpConnection.processSegment
  split_ifs
  · rfl
  · cases c.state with
    | synSent => exact synSentSegment_ok hc
    | synRcvd => exact synRcvdSegment_ok hroom
    | established => exact establishedSegment_ok hnow (by rwa [hinbound])
    | finWait1 => exact finWait1Segment_ok hnow (by rwa [hinbound])
    | finWait2 => exact finWait2Segment_ok hnow (by rwa [hinbound])
    | closing => exact closingSegment_ok hnow
    | closeWait => exact closeWaitSegment_ok hnow (by rwa [hinbound])
    | lastAck =>
        dsimp only [lastAckSegment, TcpConnection.lastAckSegment]
        split_ifs <;> rfl
    | timeWait => exact timeWaitSegment_ok hnow hc
    | closed | listen => rfl

end

/-! ## Timers -/

def tickProbe (now : Instant) (c : TcpConnection) : Except Panic (TcpConnection × List Bytes) :=
  if c.state = .established ∨ c.state = .closeWait then
    match c.probeDeadline with
    | some deadline =>
        if now ≥ deadline then do
          let packet ← sendSegment c tcpAck (c.sndUna - 1) [0]
          let doubled ← mulDuration c.probeRto 2
          let rto := min doubled maxRto
          let next ← addInstant now rto
          return ({ c with probeRto := rto, probeDeadline := some next }, [packet])
        else .ok (c, [])
    | none => .ok (c, [])
  else .ok ({ c with probeDeadline := none }, [])

def retransmitFront (now : Instant) (c : TcpConnection) :
    Except Panic (TcpConnection × List Bytes) :=
  match c.retransmitQueue.head? with
  | none => .ok (c, [])
  | some front =>
      if now - front.sentAt ≥ front.rto then do
        let f ← unwrap c.retransmitQueue.head?
        let packet ← sendSegment c f.flags f.seq f.data
        let doubled ← mulDuration f.rto 2
        let front ← unwrap c.retransmitQueue.head?
        let retryCount ← add 32 front.retryCount 1
        return ({ c with
          retransmitQueue :=
            { front with sentAt := now, rto := min doubled maxRto, retryCount := retryCount } ::
              c.retransmitQueue.tail }, [packet])
      else .ok (c, [])

def tick (now : Instant) (c : TcpConnection) : Except Panic (TcpConnection × List Bytes) :=
  if c.state = .timeWait then
    .ok (if now ≥ c.timeWaitDeadline then { c with state := .closed } else c, [])
  else do
    let (c₁, out₁) ← tickProbe now c
    if c₁.givesUp now then .ok ({ c₁ with state := .closed }, out₁)
    else do
      let (c₂, out₂) ← retransmitFront now c₁
      let (c₃, out₃) ← flushSend now c₂
      return (c₃, out₁ ++ out₂ ++ out₃)

section

variable {now : Instant} {c : TcpConnection}

theorem tickProbe_ok (hnow : Ticking now) (hb : c.Bounded) (hroom : c.bufferedBytes < 2 ^ 64) :
    tickProbe now c = .ok ((c.tickProbe now).1, written (c.tickProbe now).2) := by
  have hone : ([0] : Bytes).length ≤ mss := by decide
  unfold tickProbe TcpConnection.tickProbe
  split_ifs
  · cases c.probeDeadline with
    | none => rfl
    | some deadline =>
        dsimp only
        split_ifs
        · rw [sendSegment_ok hroom _ _ hone, ok_bind, mulDuration_two hb.probeRto, ok_bind,
            addInstant_of_le hnow (min_le_right _ _)]
          rfl
        · rfl
  · rfl

theorem retransmitFront_ok (hb : c.Bounded) (hroom : c.bufferedBytes < 2 ^ 64)
    (hretry : c.givesUp now = false) :
    retransmitFront now c =
      .ok ((c.retransmitFront now).1, written (c.retransmitFront now).2) := by
  have hqueue := hb.queue
  unfold TcpConnection.givesUp at hretry
  unfold retransmitFront TcpConnection.retransmitFront
  cases hq : c.retransmitQueue with
  | nil => rfl
  | cons front rest =>
      rw [hq] at hretry hqueue
      dsimp only [List.head?_cons] at hretry ⊢
      split_ifs with hdue
      · obtain ⟨hdata, hrto⟩ := hqueue front List.mem_cons_self
        have hcount : front.retryCount + 1 < 2 ^ 32 := by
          rw [decide_eq_true hdue, Bool.true_and, decide_eq_false_iff_not, maxRetries] at hretry
          omega
        rw [unwrap_some, ok_bind, sendSegment_ok hroom _ _ hdata, ok_bind, mulDuration_two hrto,
          ok_bind, ok_bind, add_of_lt hcount]
        rfl
      · rfl

theorem tick_ok (hnow : Ticking now) (hb : c.Bounded) (hroom : c.bufferedBytes < 2 ^ 64) :
    tick now c = .ok ((c.tick now).1, written (c.tick now).2) := by
  unfold tick TcpConnection.tick
  by_cases hst : c.state = .timeWait
  · rw [if_pos hst, if_pos hst]
    rfl
  · obtain ⟨deadline, rto, hprobe⟩ := c.tickProbe_eq now
    have hroom₁ : (c.tickProbe now).1.bufferedBytes < 2 ^ 64 := by
      rw [hprobe]
      exact hroom
    obtain ⟨queue, hfront⟩ := (c.tickProbe now).1.retransmitFront_eq now
    have hroom₂ : ((c.tickProbe now).1.retransmitFront now).1.bufferedBytes < 2 ^ 64 := by
      rw [hfront]
      exact hroom₁
    rw [if_neg hst, if_neg hst, tickProbe_ok hnow hb hroom, ok_bind]
    dsimp only
    split_ifs with hgive
    · rfl
    · rw [retransmitFront_ok (hb.tickProbe now) hroom₁ (Bool.eq_false_iff.mpr hgive), ok_bind]
      dsimp only
      rw [flushSend_ok hnow hroom₂, ok_bind]
      dsimp only
      rw [written_append, written_append, pure_eq_ok]

end

end MiniTcp.Checked
