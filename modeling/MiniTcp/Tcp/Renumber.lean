import MiniTcp.Tcp.Queue
import MiniTcp.Tcp.States

/-!
# Other initial sequence numbers

A connection whose numbers are all moved, ours by `d` and the peer's by `e`, should
behave as before.  Every function of the source commutes with the move except for
three plain comparisons: `end <= new_una` in `remove_acked`, `ack_num > snd_una` in
`process_ack` and `seq_num > rcv_nxt` in `receive_data_and_maybe_fin`.  As long as no
number has wrapped below the initial one it counts from, before or after the move,
these agree as well.
-/

namespace MiniTcp

open Serial

def UnackedSegment.renumber (d : UInt32) (u : UnackedSegment) : UnackedSegment :=
  { u with seq := u.seq + d }

/-- An incoming header carries the peer's numbers and acknowledges ours. -/
def TcpHeader.renumber (d e : UInt32) (seg : TcpHeader) : TcpHeader :=
  { seg with seqNum := seg.seqNum + e, ackNum := seg.ackNum + d }

/-- A packet of ours.  Without the ACK flag its `ack_num` is zero and stays so. -/
def Packet.renumber (d e : UInt32) (p : Packet) : Packet :=
  { p with
    hdr :=
      { p.hdr with
        seqNum := p.hdr.seqNum + d
        ackNum := if hasFlag p.hdr.flags tcpAck then p.hdr.ackNum + e else p.hdr.ackNum } }

def Emission.renumber (d e : UInt32) (m : Emission) : Emission :=
  { m with packet := m.packet.renumber d e }

def ConnEvent.renumber (d e : UInt32) : ConnEvent → ConnEvent
  | .segment now seg payload => .segment now (seg.renumber d e) payload
  | ev => ev

def Effect.renumber (d e : UInt32) (a : Effect) : Effect :=
  { a with out := a.out.map (Emission.renumber d e) }

theorem Effect.renumber_of_no_ack {d e : UInt32} {a : Effect}
    (h : ∀ m ∈ a.out, hasFlag m.flags tcpAck = false) :
    Effect.renumber d 0 a = Effect.renumber d e a := by
  have hmap : a.out.map (Emission.renumber d 0) = a.out.map (Emission.renumber d e) := by
    apply List.map_congr_left
    intro m hm
    have hflag : hasFlag m.packet.hdr.flags tcpAck = false := h m hm
    simp [Emission.renumber, Packet.renumber, hflag]
  simp [renumber, hmap]

namespace TcpConnection

def renumber (d e : UInt32) (c : TcpConnection) : TcpConnection :=
  { c with
    iss := c.iss + d
    sndUna := c.sndUna + d
    sndNxt := c.sndNxt + d
    irs := c.irs + e
    rcvNxt := c.rcvNxt + e
    retransmitQueue := c.retransmitQueue.map (UnackedSegment.renumber d)
    oooBuffer := c.oooBuffer.mapKeys (· + e) (add_left_injective e) }

def renumberSent (d e : UInt32) (r : TcpConnection × List Emission) :
    TcpConnection × List Emission :=
  (r.1.renumber d e, r.2.map (Emission.renumber d e))

def Received.renumber (d e : UInt32) (r : Received) : Received :=
  ⟨r.conn.renumber d e, r.out.map (Emission.renumber d e), r.fin⟩

def SegmentResult.renumber (d e : UInt32) (r : SegmentResult) : SegmentResult :=
  ⟨r.conn.renumber d e, r.out.map (Emission.renumber d e), r.enqueue, r.fin⟩

/-! ## Sending -/

section Sending

variable (d e : UInt32) (c : TcpConnection) (now : Instant)

@[simp] theorem renumber_state : (c.renumber d e).state = c.state := rfl

@[simp] theorem renumber_sendPending : (c.renumber d e).sendPending = c.sendPending := rfl

@[simp] theorem renumber_sndWnd : (c.renumber d e).sndWnd = c.sndWnd := rfl

@[simp] theorem renumber_sndNxt : (c.renumber d e).sndNxt = c.sndNxt + d := rfl

@[simp] theorem renumber_retransmitQueue : (c.renumber d e).retransmitQueue =
    c.retransmitQueue.map (UnackedSegment.renumber d) := rfl

@[simp] theorem bufferedBytes_renumber : (c.renumber d e).bufferedBytes = c.bufferedBytes := by
  simp [bufferedBytes, renumber]

theorem sendSegment_renumber (flags : UInt8) (seq : UInt32) (data : Bytes) :
    (c.renumber d e).sendSegment flags (seq + d) data =
      (c.sendSegment flags seq data).renumber d e := by
  have hwin : (c.renumber d e).advertiseWindow = c.advertiseWindow := by
    simp only [advertiseWindow, bufferedBytes_renumber]
    rfl
  unfold sendSegment Packet.renumber
  rw [hwin]
  dsimp only
  split_ifs <;> rfl

theorem sendAckOnly_renumber :
    (c.renumber d e).sendAckOnly = c.sendAckOnly.renumber d e := by
  unfold sendAckOnly
  rw [renumber_sndNxt, sendSegment_renumber]
  rfl

theorem queueAndSend_renumber (flags : UInt8) (data : Bytes) :
    (c.renumber d e).queueAndSend now flags data =
      renumberSent d e (c.queueAndSend now flags data) := by
  unfold queueAndSend renumberSent
  dsimp only
  rw [renumber_sndNxt, sendSegment_renumber]
  simp [renumber, UnackedSegment.renumber, Emission.renumber, add_right_comm]

theorem chunkLen_renumber : (c.renumber d e).chunkLen = c.chunkLen := by
  have hflight : (c.renumber d e).bytesInFlight = c.bytesInFlight :=
    add_sub_add_right_eq_sub _ _ _
  unfold chunkLen
  rw [hflight, renumber_sendPending, renumber_sndWnd]

theorem sendChunk_renumber (n : ℕ) :
    (c.renumber d e).sendChunk now n = renumberSent d e (c.sendChunk now n) := by
  unfold sendChunk
  rw [renumber_sendPending, queueAndSend_renumber]
  rfl

theorem flushLoop_renumber (fuel : ℕ) :
    flushLoop now fuel (c.renumber d e) = renumberSent d e (flushLoop now fuel c) := by
  induction fuel generalizing c with
  | zero => rfl
  | succ fuel ih =>
      rw [flushLoop, flushLoop, chunkLen_renumber]
      split_ifs
      · rfl
      · rw [sendChunk_renumber]
        dsimp only [renumberSent]
        rw [ih]
        simp [renumberSent]

theorem armProbe_renumber : (c.renumber d e).armProbe now = (c.armProbe now).renumber d e := by
  unfold armProbe
  rw [renumber_sndWnd, renumber_sendPending]
  split_ifs <;> rfl

theorem sendDeferredFin_renumber :
    (c.renumber d e).sendDeferredFin now = renumberSent d e (c.sendDeferredFin now) := by
  unfold sendDeferredFin
  rw [renumber_state, renumber_sendPending, queueAndSend_renumber]
  have hclose : (c.renumber d e).pendingClose = c.pendingClose := rfl
  rw [hclose]
  split_ifs
  · cases c.state <;> rfl
  · rfl

theorem flushSend_renumber :
    (c.renumber d e).flushSend now = renumberSent d e (c.flushSend now) := by
  unfold flushSend
  rw [renumber_state]
  split_ifs
  · dsimp only
    rw [armProbe_renumber, renumber_sendPending, flushLoop_renumber]
    dsimp only [renumberSent]
    rw [sendDeferredFin_renumber]
    simp [renumberSent]
  · rfl

end Sending

/-! ## The three comparisons -/

/-- The comparisons that taking the acknowledgement and the data of `seg` makes come
out the same for the moved numbers. -/
structure SameOrder (d e : UInt32) (c : TcpConnection) (seg : TcpHeader) : Prop where
  una : c.TakesAck seg → (c.sndUna + d < seg.ackNum + d ↔ c.sndUna < seg.ackNum)
  ends : c.TakesAck seg → ∀ u ∈ c.retransmitQueue,
    (u.endSeq + d ≤ seg.ackNum + d ↔ u.endSeq ≤ seg.ackNum)
  seq : c.TakesData seg → (c.rcvNxt + e < seg.seqNum + e ↔ c.rcvNxt < seg.seqNum)

section Receiving

variable {d e : UInt32} {c : TcpConnection} {seg : TcpHeader} {payload : Bytes} {now : Instant}

theorem removeAcked_renumber {una : UInt32} (h : ∀ u ∈ c.retransmitQueue,
    (u.endSeq + d ≤ una + d ↔ u.endSeq ≤ una)) :
    (c.renumber d e).removeAcked (una + d) = (c.removeAcked una).renumber d e := by
  have hend (u : UnackedSegment) : (u.renumber d).endSeq = u.endSeq + d :=
    add_right_comm _ _ _
  have hdrop : ∀ q : List UnackedSegment,
      (∀ u ∈ q, (u.endSeq + d ≤ una + d ↔ u.endSeq ≤ una)) →
      (q.map (UnackedSegment.renumber d)).dropWhile (fun u ↦ u.endSeq ≤ una + d) =
        (q.dropWhile fun u ↦ u.endSeq ≤ una).map (UnackedSegment.renumber d) := by
    intro q
    induction q with
    | nil => exact fun _ ↦ rfl
    | cons u q ih =>
        intro hq
        have hu := hq u List.mem_cons_self
        simp only [List.map_cons, List.dropWhile_cons, hend, decide_eq_true_eq, hu]
        split_ifs
        · exact ih fun v hv ↦ hq v (List.mem_cons_of_mem _ hv)
        · rfl
  unfold removeAcked
  rw [renumber_retransmitQueue, hdrop _ h]
  rfl

/-- The second half of `process_ack`. -/
def takeWindow (wnd : UInt16) (c : TcpConnection) : TcpConnection :=
  let c := { c with sndWnd := wnd.toUInt32 }
  if c.sndWnd ≠ 0 then { c with probeDeadline := none, probeRto := initialRto } else c

theorem processAck_eq_takeWindow (hack : hasFlag seg.flags tcpAck) : c.processAck seg =
    takeWindow seg.window (if c.sndUna < seg.ackNum then
      removeAcked { c with sndUna := seg.ackNum } seg.ackNum else c) := by
  unfold processAck
  rw [if_pos hack]
  rfl

theorem takeWindow_renumber (wnd : UInt16) :
    (c.renumber d e).takeWindow wnd = (c.takeWindow wnd).renumber d e := by
  unfold takeWindow
  dsimp only
  split_ifs <;> rfl

theorem processAck_renumber (hready : c.state.readsAck) (hrst : ¬ hasFlag seg.flags tcpRst)
    (h : SameOrder d e c seg) :
    (c.renumber d e).processAck (seg.renumber d e) = (c.processAck seg).renumber d e := by
  by_cases hack : hasFlag seg.flags tcpAck
  · have htakes : c.TakesAck seg := ⟨hack, hrst, .inl hready⟩
    have hcmp : (c.renumber d e).sndUna < (seg.renumber d e).ackNum ↔ c.sndUna < seg.ackNum :=
      h.una htakes
    have hack' : hasFlag (seg.renumber d e).flags tcpAck := hack
    rw [processAck_eq_takeWindow hack, processAck_eq_takeWindow hack', ← takeWindow_renumber]
    refine congrArg (takeWindow seg.window) ?_
    by_cases hnew : c.sndUna < seg.ackNum
    · rw [if_pos hnew, if_pos (hcmp.mpr hnew)]
      exact removeAcked_renumber (c := { c with sndUna := seg.ackNum }) (h.ends htakes)
    · rw [if_neg hnew, if_neg (mt hcmp.mp hnew)]
  · unfold processAck
    rw [if_neg hack, if_neg (by exact hack)]

theorem appendInOrder_renumber (data : Bytes) :
    (c.renumber d e).appendInOrder data = (c.appendInOrder data).renumber d e := by
  unfold appendInOrder
  simp [renumber, add_right_comm]

theorem splice_renumber (fuel : ℕ) (c : TcpConnection) : splice fuel (c.renumber d e) =
    ((splice fuel c).1.renumber d e, (splice fuel c).2) := by
  induction fuel generalizing c with
  | zero => rfl
  | succ fuel ih =>
      have hlook : (c.renumber d e).oooBuffer.lookup (c.renumber d e).rcvNxt =
          c.oooBuffer.lookup c.rcvNxt :=
        AssocMap.lookup_mapKeys (add_left_injective e) c.oooBuffer c.rcvNxt
      have herase : ({ c.renumber d e with
          oooBuffer := AList.erase (c.renumber d e).rcvNxt (c.renumber d e).oooBuffer } :
            TcpConnection) =
          TcpConnection.renumber d e
            { c with oooBuffer := AList.erase c.rcvNxt c.oooBuffer } :=
        congrArg (fun ooo ↦ { c.renumber d e with oooBuffer := ooo })
          (AssocMap.erase_mapKeys (add_left_injective e) c.oooBuffer c.rcvNxt)
      rw [splice, splice, hlook]
      cases c.oooBuffer.lookup c.rcvNxt with
      | none => rfl
      | some data =>
          dsimp only
          rw [herase, appendInOrder_renumber, ih]

theorem ackIf_renumber (c : TcpConnection) (b : Bool) :
    (if b then [(c.renumber d e).sendAckOnly] else []) =
      (if b then [c.sendAckOnly] else []).map (Emission.renumber d e) := by
  cases b with
  | false => rfl
  | true => simp [sendAckOnly_renumber]

theorem receive_renumber (payload : Bytes)
    (h : c.rcvNxt + e < seg.seqNum + e ↔ c.rcvNxt < seg.seqNum) :
    (c.renumber d e).receiveDataAndMaybeFin (seg.renumber d e) payload =
      (c.receiveDataAndMaybeFin seg payload).renumber d e := by
  have heq : (seg.renumber d e).seqNum = (c.renumber d e).rcvNxt ↔ seg.seqNum = c.rcvNxt :=
    add_left_inj e
  have hgt : (c.renumber d e).rcvNxt < (seg.renumber d e).seqNum ↔ c.rcvNxt < seg.seqNum := h
  have hflags : (seg.renumber d e).flags = seg.flags := rfl
  unfold receiveDataAndMaybeFin
  simp only [heq, gt_iff_lt, hgt, hflags]
  by_cases hnext : seg.seqNum = c.rcvNxt
  · have happ : (if payload.isEmpty then c.renumber d e
        else (c.renumber d e).appendInOrder payload) =
        (if payload.isEmpty then c else c.appendInOrder payload).renumber d e := by
      split_ifs
      · rfl
      · exact appendInOrder_renumber payload
    rw [if_pos hnext, if_pos hnext, happ]
    generalize (if payload.isEmpty then c else c.appendInOrder payload) = c₁
    have hlen : (c₁.renumber d e).oooBuffer.entries.length = c₁.oooBuffer.entries.length :=
      AssocMap.length_mapKeys _
    have hfin (c₂ : TcpConnection) : (if hasFlag seg.flags tcpFin then
        { c₂.renumber d e with rcvNxt := (c₂.renumber d e).rcvNxt + 1 } else c₂.renumber d e) =
        (if hasFlag seg.flags tcpFin then { c₂ with rcvNxt := c₂.rcvNxt + 1 }
          else c₂).renumber d e := by
      split_ifs
      · simp [renumber, add_right_comm]
      · rfl
    rw [hlen, splice_renumber, hfin, ackIf_renumber]
    rfl
  · rw [if_neg hnext, if_neg hnext]
    by_cases hahead : c.rcvNxt < seg.seqNum
    · have hins : ({ c.renumber d e with
          oooBuffer := AList.insert (seg.renumber d e).seqNum payload
            (c.renumber d e).oooBuffer } : TcpConnection) =
          TcpConnection.renumber d e
            { c with oooBuffer := AList.insert seg.seqNum payload c.oooBuffer } :=
        congrArg (fun ooo ↦ { c.renumber d e with oooBuffer := ooo })
          (AssocMap.insert_mapKeys (add_left_injective e) c.oooBuffer seg.seqNum payload)
      rw [if_pos hahead, if_pos hahead, bufferedBytes_renumber, hins]
      have hcap : (c.renumber d e).recvBufferCap = c.recvBufferCap := rfl
      rw [hcap]
      split_ifs
      · simp only [Received.renumber, sendAckOnly_renumber, List.map_cons, List.map_nil]
      · simp only [Received.renumber, sendAckOnly_renumber, List.map_cons, List.map_nil]
    · rw [if_neg hahead, if_neg hahead, ackIf_renumber]
      rfl

/-! ## The state machine -/

@[simp] theorem flags_renumber (d e : UInt32) (seg : TcpHeader) :
    (seg.renumber d e).flags = seg.flags := rfl

theorem ackNum_beq_renumber {e' : UInt32} (c : TcpConnection) (seg : TcpHeader) :
    ((seg.renumber d e).ackNum == (c.renumber d e').sndNxt) = (seg.ackNum == c.sndNxt) := by
  rw [Bool.eq_iff_iff, beq_iff_eq, beq_iff_eq]
  exact add_left_inj d

theorem receive_processAck_renumber (hst : c.state.receives) (hrst : ¬ hasFlag seg.flags tcpRst)
    (h : SameOrder d e c seg) :
    ((c.renumber d e).processAck (seg.renumber d e)).receiveDataAndMaybeFin
        (seg.renumber d e) payload =
      ((c.processAck seg).receiveDataAndMaybeFin seg payload).renumber d e := by
  have hready : c.state.readsAck := by
    cases hs : c.state <;> simp_all [TcpState.receives, TcpState.readsAck]
  have hnxt : (c.processAck seg).rcvNxt = c.rcvNxt :=
    congrArg Inbound.rcvNxt (processAck_inbound c seg)
  rw [processAck_renumber hready hrst h, receive_renumber]
  rw [hnxt]
  exact h.seq ⟨hrst, .inl hst⟩

theorem establishedSegment_renumber (hst : c.state.receives) (hrst : ¬ hasFlag seg.flags tcpRst)
    (h : SameOrder d e c seg) :
    (c.renumber d e).establishedSegment now (seg.renumber d e) payload =
      (c.establishedSegment now seg payload).renumber d e := by
  unfold establishedSegment
  rw [receive_processAck_renumber hst hrst h]
  generalize (c.processAck seg).receiveDataAndMaybeFin seg payload = r
  have hconn : (if r.fin then { (r.conn.renumber d e) with state := .closeWait }
      else r.conn.renumber d e) =
      (if r.fin then { r.conn with state := .closeWait } else r.conn).renumber d e := by
    split_ifs <;> rfl
  dsimp only [Received.renumber]
  rw [hconn, flushSend_renumber]
  simp [SegmentResult.renumber, renumberSent]

theorem finWait1Segment_renumber (hst : c.state.receives) (hrst : ¬ hasFlag seg.flags tcpRst)
    (h : SameOrder d e c seg) (hready : c.state.readsAck) :
    (c.renumber d e).finWait1Segment now (seg.renumber d e) payload =
      (c.finWait1Segment now seg payload).renumber d e := by
  unfold finWait1Segment
  dsimp only
  rw [receive_processAck_renumber hst hrst h, processAck_renumber hready hrst h,
    ackNum_beq_renumber]
  obtain ⟨conn, out, fin⟩ := (c.processAck seg).receiveDataAndMaybeFin seg payload
  rw [flags_renumber]
  generalize (hasFlag seg.flags tcpAck && seg.ackNum == (c.processAck seg).sndNxt) = acked
  cases acked <;> cases fin <;> rfl

theorem finWait2Segment_renumber (hst : c.state.receives) (hrst : ¬ hasFlag seg.flags tcpRst)
    (h : SameOrder d e c seg) :
    (c.renumber d e).finWait2Segment now (seg.renumber d e) payload =
      (c.finWait2Segment now seg payload).renumber d e := by
  unfold finWait2Segment
  rw [receive_processAck_renumber hst hrst h]
  generalize (c.processAck seg).receiveDataAndMaybeFin seg payload = r
  dsimp only [Received.renumber, SegmentResult.renumber]
  split_ifs <;> rfl

theorem closingSegment_renumber (hready : c.state.readsAck) (hrst : ¬ hasFlag seg.flags tcpRst)
    (h : SameOrder d e c seg) :
    (c.renumber d e).closingSegment now (seg.renumber d e) =
      (c.closingSegment now seg).renumber d e := by
  unfold closingSegment
  dsimp only
  rw [processAck_renumber hready hrst h, ackNum_beq_renumber, flags_renumber]
  split_ifs <;> rfl

theorem closeWaitSegment_renumber (hready : c.state.readsAck)
    (hrst : ¬ hasFlag seg.flags tcpRst) (h : SameOrder d e c seg) :
    (c.renumber d e).closeWaitSegment now (seg.renumber d e) =
      (c.closeWaitSegment now seg).renumber d e := by
  unfold closeWaitSegment
  rw [processAck_renumber hready hrst h, flushSend_renumber]
  rfl

theorem lastAckSegment_renumber (hready : c.state.readsAck) (hrst : ¬ hasFlag seg.flags tcpRst)
    (h : SameOrder d e c seg) :
    (c.renumber d e).lastAckSegment (seg.renumber d e) =
      (c.lastAckSegment seg).renumber d e := by
  unfold lastAckSegment
  dsimp only
  rw [processAck_renumber hready hrst h, ackNum_beq_renumber, flags_renumber]
  split_ifs <;> rfl

theorem timeWaitSegment_renumber :
    (c.renumber d e).timeWaitSegment now (seg.renumber d e) =
      (c.timeWaitSegment now seg).renumber d e := by
  unfold timeWaitSegment
  rw [flags_renumber, sendAckOnly_renumber]
  split_ifs <;> rfl

theorem synRcvdSegment_renumber (hst : c.state = .synRcvd) (hrst : ¬ hasFlag seg.flags tcpRst)
    (h : SameOrder d e c seg) :
    (c.renumber d e).synRcvdSegment (seg.renumber d e) payload =
      (c.synRcvdSegment seg payload).renumber d e := by
  unfold synRcvdSegment
  rw [ackNum_beq_renumber, flags_renumber]
  by_cases hack : (hasFlag seg.flags tcpAck && seg.ackNum == c.sndNxt) = true
  · obtain ⟨hflag, heq⟩ := Bool.and_eq_true_iff.mp hack
    have htakes : c.TakesAck seg :=
      ⟨hflag, hrst, .inr ⟨by rw [hst]; rfl, beq_iff_eq.mp heq⟩⟩
    have hremove : removeAcked { c.renumber d e with sndUna := (seg.renumber d e).ackNum }
        (seg.renumber d e).ackNum =
        (removeAcked { c with sndUna := seg.ackNum } seg.ackNum).renumber d e :=
      removeAcked_renumber (c := { c with sndUna := seg.ackNum }) (h.ends htakes)
    have hseq : c.rcvNxt + e < seg.seqNum + e ↔ c.rcvNxt < seg.seqNum :=
      h.seq ⟨hrst, .inr ⟨hst, hflag, beq_iff_eq.mp heq⟩⟩
    rw [if_pos hack, if_pos hack, hremove]
    generalize hc₁ : removeAcked { c with sndUna := seg.ackNum } seg.ackNum = c₁
    have hnxt : c₁.rcvNxt = c.rcvNxt := by rw [← hc₁]; rfl
    have hseq₁ : c₁.rcvNxt + e < seg.seqNum + e ↔ c₁.rcvNxt < seg.seqNum := by
      rw [hnxt]
      exact hseq
    have hrec := receive_renumber (d := d) (e := e)
      (c := { c₁ with sndWnd := seg.window.toUInt32, state := .established }) payload hseq₁
    have henter (r : Received) : (⟨if (r.renumber d e).fin then
          { (r.renumber d e).conn with state := .closeWait } else (r.renumber d e).conn,
        (r.renumber d e).out, true, (r.renumber d e).fin⟩ : SegmentResult) =
        SegmentResult.renumber d e
          ⟨if r.fin then { r.conn with state := .closeWait } else r.conn, r.out, true, r.fin⟩ := by
      obtain ⟨conn, out, fin⟩ := r
      cases fin <;> rfl
    split_ifs with hdata
    · rw [← henter, ← hrec]
      rfl
    · rfl
  · rw [if_neg hack, if_neg hack]
    rfl

theorem processSegment_renumber (hst : c.state ≠ .synSent) (h : SameOrder d e c seg) :
    (c.renumber d e).processSegment now (seg.renumber d e) payload =
      (c.processSegment now seg payload).renumber d e := by
  unfold processSegment
  rw [renumber_state, flags_renumber]
  by_cases hreset : hasFlag seg.flags tcpRst ∧ c.state ≠ .closed ∧ c.state ≠ .listen
  · rw [if_pos hreset, if_pos hreset]
    rfl
  · rw [if_neg hreset, if_neg hreset]
    have hrst (hopen : c.state ≠ .closed ∧ c.state ≠ .listen) : ¬ hasFlag seg.flags tcpRst :=
      fun hr ↦ hreset ⟨hr, hopen⟩
    cases hs : c.state with
    | synSent => exact absurd hs hst
    | synRcvd => exact synRcvdSegment_renumber hs (hrst (by simp [hs])) h
    | established =>
        exact establishedSegment_renumber (by rw [hs]; rfl) (hrst (by simp [hs])) h
    | finWait1 =>
        exact finWait1Segment_renumber (by rw [hs]; rfl) (hrst (by simp [hs])) h (by rw [hs]; rfl)
    | finWait2 =>
        exact finWait2Segment_renumber (by rw [hs]; rfl) (hrst (by simp [hs])) h
    | closing => exact closingSegment_renumber (by rw [hs]; rfl) (hrst (by simp [hs])) h
    | closeWait => exact closeWaitSegment_renumber (by rw [hs]; rfl) (hrst (by simp [hs])) h
    | lastAck => exact lastAckSegment_renumber (by rw [hs]; rfl) (hrst (by simp [hs])) h
    | timeWait => exact timeWaitSegment_renumber
    | closed => rfl
    | listen => rfl

end Receiving

/-! ## Timers and calls -/

section Calls

variable (d e : UInt32) (c : TcpConnection) (now : Instant)

theorem tickProbe_renumber :
    (c.renumber d e).tickProbe now = renumberSent d e (c.tickProbe now) := by
  have hseq : (c.renumber d e).sndUna - 1 = c.sndUna - 1 + d := (sub_add_eq_add_sub _ _ _).symm
  have hprobe : (c.renumber d e).probeDeadline = c.probeDeadline := rfl
  unfold tickProbe
  rw [renumber_state, hseq, sendSegment_renumber, hprobe]
  split_ifs
  · cases c.probeDeadline with
    | none => rfl
    | some deadline =>
        dsimp only
        split_ifs <;> rfl
  · rfl

theorem givesUp_renumber : (c.renumber d e).givesUp now = c.givesUp now := by
  unfold givesUp
  rw [renumber_retransmitQueue]
  cases c.retransmitQueue <;> rfl

theorem retransmitFront_renumber :
    (c.renumber d e).retransmitFront now = renumberSent d e (c.retransmitFront now) := by
  unfold retransmitFront
  rw [renumber_retransmitQueue]
  cases hq : c.retransmitQueue with
  | nil => rfl
  | cons front rest =>
      have hsend : (c.renumber d e).sendSegment (front.renumber d).flags (front.renumber d).seq
          (front.renumber d).data = (c.sendSegment front.flags front.seq front.data).renumber d e :=
        sendSegment_renumber d e c front.flags front.seq front.data
      rw [List.map_cons]
      dsimp only
      rw [hsend]
      by_cases htime : now - front.sentAt ≥ front.rto
      · rw [if_pos htime, if_pos (by exact htime)]
        rfl
      · rw [if_neg htime, if_neg (by exact htime)]
        rfl

theorem tick_renumber : (c.renumber d e).tick now = renumberSent d e (c.tick now) := by
  have htime : (c.renumber d e).timeWaitDeadline = c.timeWaitDeadline := rfl
  unfold tick
  rw [renumber_state, htime, tickProbe_renumber]
  by_cases hst : c.state = .timeWait
  · rw [if_pos hst, if_pos hst]
    split_ifs <;> rfl
  · rw [if_neg hst, if_neg hst]
    dsimp only [renumberSent]
    rw [givesUp_renumber]
    split_ifs
    · rfl
    · rw [retransmitFront_renumber]
      dsimp only [renumberSent]
      rw [flushSend_renumber]
      simp [renumberSent]

theorem send_renumber (data : Bytes) :
    (c.renumber d e).send now data = renumberSent d e (c.send now data) :=
  flushSend_renumber d e { c with sendPending := c.sendPending ++ c.acceptedPrefix data } now

theorem close_renumber : (c.renumber d e).close now = renumberSent d e (c.close now) := by
  have hflush := flushSend_renumber d e { c with pendingClose := true } now
  obtain ⟨state⟩ := c
  cases state with
  | established | closeWait => exact hflush
  | _ => rfl

end Calls

theorem step_renumber {d e : UInt32} {c : TcpConnection} {ev : ConnEvent}
    (h : ∀ seg ∈ ev.header, c.state ≠ .synSent ∧ SameOrder d e c seg) :
    (c.renumber d e).step (ev.renumber d e) =
      ((c.step ev).1.renumber d e, (c.step ev).2.renumber d e) := by
  cases ev with
  | segment now seg payload =>
      obtain ⟨hst, hord⟩ := h seg rfl
      have hseg : (c.renumber d e).processSegment now (seg.renumber d e) payload =
          (c.processSegment now seg payload).renumber d e := processSegment_renumber hst hord
      simp only [step, ConnEvent.renumber, hseg]
      rfl
  | tick now =>
      simp only [step, ConnEvent.renumber, tick_renumber]
      rfl
  | send now data =>
      simp only [step, ConnEvent.renumber, send_renumber]
      rfl
  | close now =>
      simp only [step, ConnEvent.renumber, close_renumber]
      rfl
  | recv len => rfl
  | setRecvCap cap => rfl
  | setSendCap cap => rfl


section Unsynchronized

variable {d e : UInt32} {c : TcpConnection} {w : Effect} {seg : TcpHeader} {ev : ConnEvent}

/-- The connection after the SYN,ACK that answers its SYN. -/
def answered (c : TcpConnection) (seg : TcpHeader) : TcpConnection :=
  { removeAcked
      { c with
        irs := seg.seqNum
        rcvNxt := seg.seqNum + 1
        sndUna := seg.ackNum
        sndWnd := seg.window.toUInt32 } seg.ackNum with state := .established }

theorem answered_renumber (hooo : c.oooBuffer = ∅)
    (hends : ∀ u ∈ c.retransmitQueue, (u.endSeq + d ≤ seg.ackNum + d ↔ u.endSeq ≤ seg.ackNum)) :
    (c.renumber d 0).answered (seg.renumber d e) = (c.answered seg).renumber d e := by
  have hqueue := congrArg retransmitQueue (removeAcked_renumber (e := 0) hends)
  simp only [answered, removeAcked, renumber, TcpHeader.renumber, hooo, AssocMap.mapKeys_empty,
    add_right_comm _ (1 : UInt32), mk.injEq, and_true, true_and]
  exact hqueue

theorem synSentSegment_renumber (hooo : c.oooBuffer = ∅)
    (htaken : (hasFlag seg.flags tcpSyn && hasFlag seg.flags tcpAck &&
      seg.ackNum == c.sndNxt) = true)
    (hends : ∀ u ∈ c.retransmitQueue, (u.endSeq + d ≤ seg.ackNum + d ↔ u.endSeq ≤ seg.ackNum)) :
    (c.renumber d 0).synSentSegment (seg.renumber d e) =
      (c.synSentSegment seg).renumber d e := by
  have htaken' : (hasFlag seg.flags tcpSyn && hasFlag seg.flags tcpAck &&
      (seg.renumber d e).ackNum == (c.renumber d 0).sndNxt) = true := by
    rwa [ackNum_beq_renumber]
  have hout : (c.synSentSegment seg) =
      ⟨c.answered seg, [(c.answered seg).sendAckOnly], false, false⟩ := if_pos htaken
  have hout' : (c.renumber d 0).synSentSegment (seg.renumber d e) =
      ⟨(c.renumber d 0).answered (seg.renumber d e),
        [((c.renumber d 0).answered (seg.renumber d e)).sendAckOnly], false, false⟩ :=
    if_pos htaken'
  rw [hout, hout', answered_renumber hooo hends, sendAckOnly_renumber]
  rfl

theorem step_renumber_unsynchronized (h : c.Unsynchronized w)
    (hends : ∀ seg ∈ ev.header, c.TakesAck seg → ∀ u ∈ c.retransmitQueue,
      (u.endSeq + d ≤ seg.ackNum + d ↔ u.endSeq ≤ seg.ackNum))
    (hout : (c.step ev).2.syn = false →
      ∀ m ∈ (c.step ev).2.out, hasFlag m.flags tcpAck = false) :
    (c.renumber d 0).step (ev.renumber d e) =
      ((c.step ev).1.renumber d (if (c.step ev).2.syn then e else 0),
        (c.step ev).2.renumber d e) := by
  have hother (hev : ev.header = none) (hsyn : (c.step ev).2.syn = false) :
      (c.renumber d 0).step (ev.renumber d 0) =
        ((c.step ev).1.renumber d (if (c.step ev).2.syn then e else 0),
          (c.step ev).2.renumber d e) := by
    rw [step_renumber (by simp [hev]), hsyn, if_neg (by simp),
      Effect.renumber_of_no_ack (hout hsyn)]
  cases ev with
  | segment now seg payload =>
      have hignored (hc : c.processSegment now seg payload = ⟨c, [], false, false⟩)
          (hc' : (c.renumber d 0).processSegment now (seg.renumber d e) payload =
            ⟨c.renumber d 0, [], false, false⟩) :
          (c.renumber d 0).step (.segment now (seg.renumber d e) payload) =
            ((c.step (.segment now seg payload)).1.renumber d
                (if (c.step (.segment now seg payload)).2.syn then e else 0),
              (c.step (.segment now seg payload)).2.renumber d e) := by
        rcases h.state with hs | hs <;>
          simp [step, hc, hc', SegmentResult.effect, Effect.renumber, hs]
      rcases h.state with hs | hs
      · by_cases hrst : hasFlag seg.flags tcpRst
        · simp [ConnEvent.renumber, step, processSegment, hrst, hs, SegmentResult.effect,
            Effect.renumber]
          rfl
        · have harm : c.processSegment now seg payload = c.synSentSegment seg := by
            simp [processSegment, hrst, hs]
          have harm' : (c.renumber d 0).processSegment now (seg.renumber d e) payload =
              (c.renumber d 0).synSentSegment (seg.renumber d e) := by
            simp [processSegment, hrst, hs]
          by_cases htaken : (hasFlag seg.flags tcpSyn && hasFlag seg.flags tcpAck &&
              seg.ackNum == c.sndNxt) = true
          · have hflags := htaken
            simp only [Bool.and_eq_true, beq_iff_eq] at hflags
            have htakes : c.TakesAck seg :=
              ⟨hflags.1.2, hrst, .inr ⟨by rw [hs]; rfl, hflags.2⟩⟩
            have hseg := synSentSegment_renumber (e := e) h.ooo htaken (hends seg rfl htakes)
            have hest : (c.synSentSegment seg).conn.state = .established := by
              unfold synSentSegment
              rw [if_pos htaken]
            have hsyn : ((c.synSentSegment seg).effect c.state).syn = true := by
              rw [hs, SegmentResult.effect, hest]
              rfl
            simp only [ConnEvent.renumber, step, harm, harm', hseg, hsyn, if_true]
            rfl
          · refine hignored (harm.trans (if_neg htaken)) (harm'.trans (if_neg ?_))
            rwa [ackNum_beq_renumber]
      · refine hignored ?_ ?_ <;> simp [processSegment, hs]
  | tick | send | recv | close | setRecvCap | setSendCap => exact hother rfl rfl

end Unsynchronized

end TcpConnection

end MiniTcp
