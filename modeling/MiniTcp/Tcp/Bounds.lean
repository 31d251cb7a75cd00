import MiniTcp.Tcp.Flush
import MiniTcp.Tcp.Host
import MiniTcp.Tcp.ReceiveBuffer
import MiniTcp.Tcp.Sender

/-!
# Bounds on what a connection queues and waits for

No queued segment is longer than the MSS, and no timeout grows beyond `MAX_RTO`.  An
action forgets the timeouts it sets, so the bounds are carried through the functions
of the source themselves.
-/

namespace MiniTcp

def UnackedSegment.Bounded (u : UnackedSegment) : Prop := u.data.length ≤ mss ∧ u.rto ≤ maxRto

namespace TcpConnection

structure Bounded (c : TcpConnection) : Prop where
  queue : ∀ u ∈ c.retransmitQueue, u.Bounded
  probeRto : c.probeRto ≤ maxRto

variable {c c' : TcpConnection} {seg : TcpHeader} {payload : Bytes}

theorem Bounded.of_eq (h : c.Bounded) (hqueue : c'.retransmitQueue = c.retransmitQueue)
    (hrto : c'.probeRto = c.probeRto) : c'.Bounded :=
  ⟨hqueue ▸ h.queue, hrto ▸ h.probeRto⟩

theorem Bounded.removeAcked (h : c.Bounded) (una : UInt32) : (c.removeAcked una).Bounded :=
  ⟨fun u hu ↦ h.queue u ((List.dropWhile_suffix _).subset hu), h.probeRto⟩

theorem Bounded.processAck (h : c.Bounded) (seg : TcpHeader) : (c.processAck seg).Bounded := by
  have hacked : (if seg.ackNum > c.sndUna then
      TcpConnection.removeAcked { c with sndUna := seg.ackNum } seg.ackNum else c).Bounded := by
    split_ifs
    · exact (h.removeAcked seg.ackNum).of_eq rfl rfl
    · exact h
  have hinitial : initialRto ≤ maxRto := by decide
  unfold TcpConnection.processAck
  dsimp only
  split_ifs at hacked ⊢
  all_goals first
    | exact h
    | exact ⟨hacked.queue, hinitial⟩
    | exact ⟨hacked.queue, hacked.probeRto⟩

theorem Bounded.queueAndSend (h : c.Bounded) (now : Instant) (flags : UInt8) (data : Bytes)
    (hdata : data.length ≤ mss) : (c.queueAndSend now flags data).1.Bounded := by
  have hinitial : initialRto ≤ maxRto := by decide
  refine ⟨fun u hu ↦ ?_, h.probeRto⟩
  rcases List.mem_append.mp hu with hu | hu
  · exact h.queue u hu
  · rw [List.mem_singleton.mp hu]
    exact ⟨hdata, hinitial⟩

theorem Bounded.flushLoop (h : c.Bounded) (now : Instant) (fuel : ℕ) :
    (flushLoop now fuel c).1.Bounded := by
  induction fuel generalizing c with
  | zero => exact h
  | succ fuel ih =>
      rw [TcpConnection.flushLoop]
      split_ifs
      · exact h
      · have htake : (c.sendPending.take c.chunkLen).length ≤ mss :=
          (List.length_take_le _ _).trans c.chunkLen_le.1
        exact ih ((h.queueAndSend now _ _ htake).of_eq rfl rfl)

theorem Bounded.sendDeferredFin (h : c.Bounded) (now : Instant) :
    (c.sendDeferredFin now).1.Bounded := by
  have hfin : (c.queueAndSend now (tcpFin ||| tcpAck) []).1.Bounded :=
    h.queueAndSend now _ _ (Nat.zero_le _)
  unfold TcpConnection.sendDeferredFin
  split_ifs
  · split
    · exact hfin.of_eq rfl rfl
    · exact hfin.of_eq rfl rfl
    · exact h.of_eq rfl rfl
  · exact h

theorem Bounded.flushSend (h : c.Bounded) (now : Instant) : (c.flushSend now).1.Bounded := by
  cases hst : c.state.sends with
  | false =>
      rw [flushSend_of_not_sends now hst]
      exact h
  | true =>
      have harm : (c.armProbe now).Bounded := by
        unfold TcpConnection.armProbe
        split_ifs
        · exact h.of_eq rfl rfl
        · exact h
      rw [flushSend_of_sends now hst]
      exact (harm.flushLoop now _).sendDeferredFin now

theorem Bounded.receive (h : c.Bounded) (seg : TcpHeader) (payload : Bytes) :
    (c.receiveDataAndMaybeFin seg payload).conn.Bounded := by
  obtain ⟨nxt, buf, ooo, heq⟩ := receive_eq c seg payload
  rw [heq]
  exact h.of_eq rfl rfl

theorem Bounded.processSegment (h : c.Bounded) (now : Instant) (seg : TcpHeader)
    (payload : Bytes) : (c.processSegment now seg payload).conn.Bounded := by
  have hacked := h.removeAcked seg.ackNum
  have hack := h.processAck seg
  have hreceive := hack.receive seg payload
  unfold TcpConnection.processSegment
  split_ifs
  · exact h.of_eq rfl rfl
  · cases c.state with
    | synSent =>
        dsimp only [synSentSegment]
        split_ifs
        · exact hacked.of_eq rfl rfl
        · exact h
    | synRcvd =>
        have hopen : Bounded { TcpConnection.removeAcked { c with sndUna := seg.ackNum } seg.ackNum
            with sndWnd := seg.window.toUInt32, state := .established } := hacked.of_eq rfl rfl
        dsimp only [synRcvdSegment]
        split_ifs
        · exact (hopen.receive seg payload).of_eq rfl rfl
        · exact hopen.receive seg payload
        · exact hopen
        · exact h
    | established =>
        refine Bounded.flushSend ?_ now
        split_ifs
        · exact hreceive.of_eq rfl rfl
        · exact hreceive
    | finWait1 =>
        dsimp only [finWait1Segment, enterTimeWait]
        split_ifs <;> exact hreceive.of_eq rfl rfl
    | finWait2 =>
        dsimp only [finWait2Segment, enterTimeWait]
        split_ifs <;> exact hreceive.of_eq rfl rfl
    | closing =>
        dsimp only [closingSegment, enterTimeWait]
        split_ifs <;> exact hack.of_eq rfl rfl
    | closeWait => exact hack.flushSend now
    | lastAck =>
        dsimp only [lastAckSegment]
        split_ifs <;> exact hack.of_eq rfl rfl
    | timeWait =>
        dsimp only [timeWaitSegment]
        split_ifs <;> exact h.of_eq rfl rfl
    | closed | listen => exact h

theorem Bounded.tickProbe (h : c.Bounded) (now : Instant) : (c.tickProbe now).1.Bounded := by
  unfold TcpConnection.tickProbe
  split_ifs
  · split
    · split_ifs
      · exact ⟨h.queue, min_le_right _ _⟩
      · exact h
    · exact h
  · exact h.of_eq rfl rfl

theorem Bounded.retransmitFront (h : c.Bounded) (now : Instant) :
    (c.retransmitFront now).1.Bounded := by
  unfold TcpConnection.retransmitFront
  split
  · exact h
  · next front rest hq =>
      have hqueue := h.queue
      rw [hq, List.forall_mem_cons] at hqueue
      split_ifs
      · exact ⟨List.forall_mem_cons.mpr ⟨⟨hqueue.1.1, min_le_right _ _⟩, hqueue.2⟩, h.probeRto⟩
      · exact h

theorem Bounded.tick (h : c.Bounded) (now : Instant) : (c.tick now).1.Bounded := by
  unfold TcpConnection.tick
  dsimp only
  split_ifs
  · exact h.of_eq rfl rfl
  · exact h
  · exact (h.tickProbe now).of_eq rfl rfl
  · exact ((h.tickProbe now).retransmitFront now).flushSend now

theorem Bounded.step (h : c.Bounded) (e : ConnEvent) : (c.step e).1.Bounded := by
  cases e with
  | segment now seg payload => exact h.processSegment now seg payload
  | tick now => exact h.tick now
  | send now data =>
      refine Bounded.flushSend ?_ now
      exact h.of_eq rfl rfl
  | close now =>
      have hclose : Bounded { c with pendingClose := true } := h.of_eq rfl rfl
      simp only [TcpConnection.step, TcpConnection.close]
      split
      · exact hclose.flushSend now
      · exact hclose.flushSend now
      · exact h.of_eq rfl rfl
      · exact h.of_eq rfl rfl
      · exact h
  | recv len | setRecvCap cap | setSendCap cap => exact h.of_eq rfl rfl

theorem bounded_new (now : Instant) : (TcpConnection.new now).Bounded := by
  have hinitial : initialRto ≤ maxRto := by decide
  exact ⟨fun _ hu ↦ absurd hu List.not_mem_nil, hinitial⟩

/-! ## What one segment adds to the receive buffers -/

theorem bufferedBytes_receive_le (c : TcpConnection) (seg : TcpHeader) (payload : Bytes) :
    (c.receiveDataAndMaybeFin seg payload).conn.bufferedBytes ≤
      c.bufferedBytes + payload.length := by
  by_cases heq : seg.seqNum = c.rcvNxt
  · exact (bufferedBytes_receive_of_eq heq).le
  · by_cases hgt : seg.seqNum > c.rcvNxt
    · rw [(receive_of_gt payload heq hgt).1]
      split_ifs
      · have herase := AssocMap.weight_erase_le List.length c.oooBuffer seg.seqNum
        simp only [bufferedBytes, AssocMap.weight_insert]
        omega
      · exact Nat.le_add_right _ _
    · rw [(receive_of_lt payload heq hgt).1]
      exact Nat.le_add_right _ _

theorem bufferedBytes_flushSend (now : Instant) (c : TcpConnection) :
    (c.flushSend now).1.bufferedBytes = c.bufferedBytes := by
  cases hst : c.state.sends with
  | false => rw [flushSend_of_not_sends now hst]
  | true =>
      obtain ⟨deadline, harm, -⟩ := armProbe_eq now c
      obtain ⟨queue, nxt, pending, hloop⟩ := flushLoop_eq now c.sendPending.length (c.armProbe now)
      rw [flushSend_of_sends now hst]
      dsimp only [sendDeferredFin]
      rw [hloop, harm]
      split_ifs
      · split <;> rfl
      · rfl

theorem bufferedBytes_processSegment_le (now : Instant) (c : TcpConnection) (seg : TcpHeader)
    (payload : Bytes) :
    (c.processSegment now seg payload).conn.bufferedBytes ≤ c.bufferedBytes + payload.length := by
  have hack : (c.processAck seg).bufferedBytes = c.bufferedBytes :=
    bufferedBytes_congr (c.processAck_inbound seg)
  have hle : c.bufferedBytes ≤ c.bufferedBytes + payload.length := Nat.le_add_right _ _
  have hackle : (c.processAck seg).bufferedBytes ≤ c.bufferedBytes + payload.length := by omega
  have hreceive : ((c.processAck seg).receiveDataAndMaybeFin seg payload).conn.bufferedBytes ≤
      c.bufferedBytes + payload.length := by
    have h := bufferedBytes_receive_le (c.processAck seg) seg payload
    omega
  unfold TcpConnection.processSegment
  split_ifs
  · exact hle
  · cases c.state with
    | synSent =>
        dsimp only [synSentSegment]
        split_ifs <;> exact hle
    | synRcvd =>
        have hopen := bufferedBytes_receive_le
          { TcpConnection.removeAcked { c with sndUna := seg.ackNum } seg.ackNum with
            sndWnd := seg.window.toUInt32, state := .established } seg payload
        dsimp only [synRcvdSegment]
        split_ifs
        · exact hopen
        · exact hopen
        · exact hle
        · exact hle
    | established =>
        dsimp only [establishedSegment]
        rw [bufferedBytes_flushSend]
        split_ifs <;> exact hreceive
    | finWait1 =>
        dsimp only [finWait1Segment, enterTimeWait]
        split_ifs <;> exact hreceive
    | finWait2 =>
        dsimp only [finWait2Segment, enterTimeWait]
        split_ifs <;> exact hreceive
    | closing =>
        dsimp only [closingSegment, enterTimeWait]
        split_ifs <;> exact hackle
    | closeWait =>
        dsimp only [closeWaitSegment]
        rw [bufferedBytes_flushSend]
        exact hackle
    | lastAck =>
        dsimp only [lastAckSegment]
        split_ifs <;> exact hackle
    | timeWait =>
        dsimp only [timeWaitSegment]
        split_ifs <;> exact hle
    | closed | listen => exact hle

end TcpConnection

theorem Track.Reachable.bounded {g : Guard} {t : Track} (h : t.Reachable g) : t.conn.Bounded := by
  refine Run.Reaches.invariant (P := fun t : Track ↦ t.conn.Bounded) ?_ ?_ h
  · rintro t (⟨now, iss, key, rfl⟩ | ⟨now, iss, key, seg, rfl⟩)
    all_goals
      refine TcpConnection.Bounded.queueAndSend ?_ now _ [] (Nat.zero_le _)
      exact (TcpConnection.bounded_new now).of_eq rfl rfl
  · intro t e _ _ ht
    exact ht.step e

end MiniTcp
