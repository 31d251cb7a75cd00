import MiniTcp.Tcp.AcceptQueue
import MiniTcp.Tcp.Inbound

/-!
# A segment that is delivered twice

The first delivery may change the state, so the second may run another arm.  Both arms
see the same thing: a connection that has taken the acknowledgement, holds the data or
has passed it, has nothing to flush and sent its FIN behind everything the segment can
acknowledge.  `Settled` says so, every arm ends in it, and no arm changes a connection
that is in it, apart from the deadline of TIME_WAIT.
-/

namespace MiniTcp

open Serial

namespace TcpConnection

variable {c : TcpConnection} {now : Instant} {seg : TcpHeader} {data : Bytes}

/-- The connection without the instant at which TIME_WAIT ends. -/
def untimed (c : TcpConnection) : TcpConnection := { c with timeWaitDeadline := 0 }

/-- No number wraps between what the connection has and what the segment and the bytes
still pending add to it. -/
structure Unwrapped (c : TcpConnection) (seg : TcpHeader) (data : Bytes) : Prop where
  segment : seg.seqNum.toNat + data.length < 2 ^ 32
  pieces : ∀ s d, c.oooBuffer.lookup s = some d → s.toNat + d.length < 2 ^ 32
  pending : c.sndNxt.toNat + c.sendPending.length + 1 < 2 ^ 32

/-! ## The acknowledgement -/

def Acked (c : TcpConnection) (seg : TcpHeader) : Prop :=
  hasFlag seg.flags tcpAck → seg.ackNum ≤ c.sndUna ∧ c.sndWnd = seg.window.toUInt32 ∧
    (c.sndWnd ≠ 0 → c.probeDeadline = none ∧ c.probeRto = initialRto)

theorem acked_processAck (c : TcpConnection) (seg : TcpHeader) : (c.processAck seg).Acked seg := by
  intro hack
  unfold processAck
  rw [if_pos hack]
  by_cases hnew : seg.ackNum > c.sndUna
  · rw [if_pos hnew]
    dsimp only
    split_ifs with hwnd
    · exact ⟨UInt32.le_refl _, rfl, fun _ ↦ ⟨rfl, rfl⟩⟩
    · exact ⟨UInt32.le_refl _, rfl, fun h ↦ absurd h hwnd⟩
  · rw [if_neg hnew]
    have hle : seg.ackNum ≤ c.sndUna := UInt32.not_lt.mp hnew
    dsimp only
    split_ifs with hwnd
    · exact ⟨hle, rfl, fun _ ↦ ⟨rfl, rfl⟩⟩
    · exact ⟨hle, rfl, fun h ↦ absurd h hwnd⟩

theorem Acked.processAck (h : c.Acked seg) : c.processAck seg = c := by
  unfold TcpConnection.processAck
  by_cases hack : hasFlag seg.flags tcpAck
  · obtain ⟨hle, hwnd, hprobe⟩ := h hack
    rw [if_pos hack, if_neg (UInt32.not_lt.mpr hle), ← hwnd]
    dsimp only
    split_ifs with hzero
    · obtain ⟨hdeadline, hrto⟩ := hprobe hzero
      rw [← hdeadline, ← hrto]
    · rfl
  · rw [if_neg hack]

/-! ## The data -/

/-- The receiving half has nothing to take from the segment any more. -/
def Absorbed (c : TcpConnection) (seg : TcpHeader) (data : Bytes) : Prop :=
  (seg.seqNum = c.rcvNxt ∧ data = [] ∧ hasFlag seg.flags tcpFin = false ∧
      c.oooBuffer.lookup c.rcvNxt = none) ∨
    (seg.seqNum > c.rcvNxt ∧ (data = [] ∨ c.recvBufferCap < c.bufferedBytes + data.length ∨
      AList.insert seg.seqNum data c.oooBuffer = c.oooBuffer)) ∨
    seg.seqNum < c.rcvNxt

theorem Absorbed.of_inbound {c' : TcpConnection} (h : c.Absorbed seg data)
    (heq : c'.inbound = c.inbound) : c'.Absorbed seg data := by
  unfold Absorbed at h ⊢
  rw [bufferedBytes_congr heq]
  unfold inbound at heq
  obtain ⟨-, hnxt, hooo, -, hcap⟩ := Inbound.mk.inj heq
  rwa [hnxt, hooo, hcap]

theorem Absorbed.receive (h : c.Absorbed seg data) :
    (c.receiveDataAndMaybeFin seg data).conn = c ∧
      (c.receiveDataAndMaybeFin seg data).fin = false := by
  rcases h with ⟨heq, rfl, hfin, hnone⟩ | ⟨hgt, hkeep⟩ | hlt
  · obtain ⟨hconn, hf⟩ := receive_of_eq [] heq
    have happ : c.appendInOrder [] = c := by
      simp [appendInOrder]
    rw [happ, splice_of_lookup _ hnone, if_neg (by simp [hfin])] at hconn
    exact ⟨hconn, hf.trans hfin⟩
  · have hne : seg.seqNum ≠ c.rcvNxt := by
      rintro heq
      rw [heq] at hgt
      exact UInt32.lt_irrefl _ hgt
    obtain ⟨hconn, hf⟩ := receive_of_gt data hne hgt
    refine ⟨hconn.trans ?_, hf⟩
    split_ifs with hroom
    · rw [Bool.and_eq_true, Bool.not_eq_true', decide_eq_true_eq] at hroom
      rcases hkeep with rfl | hfull | hins
      · cases hroom.1
      · omega
      · rw [hins]
    · rfl
  · have hne : seg.seqNum ≠ c.rcvNxt := by
      rintro heq
      rw [heq] at hlt
      exact UInt32.lt_irrefl _ hlt
    exact receive_of_lt data hne (UInt32.not_lt.mpr (UInt32.le_of_lt hlt))

theorem absorbed_receive (hseg : seg.seqNum.toNat + data.length < 2 ^ 32)
    (hp : ∀ s d, c.oooBuffer.lookup s = some d → s.toNat + d.length < 2 ^ 32)
    (hfin : (c.receiveDataAndMaybeFin seg data).fin = false) :
    (c.receiveDataAndMaybeFin seg data).conn.Absorbed seg data := by
  by_cases heq : seg.seqNum = c.rcvNxt
  · obtain ⟨hconn, hf⟩ := receive_of_eq data heq
    have hnofin := hf.symm.trans hfin
    rw [if_neg (by simp [hnofin])] at hconn
    have hle := (rcvNxt_splice c.oooBuffer.entries.length 0 (UInt32.toNat_lt _)
      hp : (c.appendInOrder data).rcvNxt.toNat ≤ _ ∧ _).1
    have hnone := lookup_splice c.oooBuffer.entries.length (c.appendInOrder data) le_rfl
    have happ : (c.appendInOrder data).rcvNxt.toNat = seg.seqNum.toNat + data.length := by
      rw [heq] at hseg ⊢
      exact toNat_shift hseg
    rw [← hconn] at hle hnone
    -- `rcv_nxt` has moved unless the segment was empty and nothing could be spliced in
    by_cases hsame : seg.seqNum = (c.receiveDataAndMaybeFin seg data).conn.rcvNxt
    · have hnil : data = [] := by
        rw [← hsame] at hle
        exact List.length_eq_zero_iff.mp (by omega)
      exact .inl ⟨hsame, hnil, hnofin, hnone⟩
    · refine .inr (.inr ?_)
      rw [UInt32.lt_iff_toNat_lt]
      have hne : seg.seqNum.toNat ≠ (c.receiveDataAndMaybeFin seg data).conn.rcvNxt.toNat :=
        fun h ↦ hsame (UInt32.toNat_inj.mp h)
      omega
  · by_cases hgt : seg.seqNum > c.rcvNxt
    · obtain ⟨hconn, -⟩ := receive_of_gt data heq hgt
      rw [hconn]
      split_ifs with hroom
      · exact .inr (.inl ⟨hgt, .inr (.inr (AList.insert_insert _))⟩)
      · refine .inr (.inl ⟨hgt, ?_⟩)
        rw [Bool.and_eq_true, Bool.not_eq_true', decide_eq_true_eq, not_and_or,
          Bool.not_eq_false] at hroom
        rcases hroom with hnil | hfull
        · exact .inl (List.isEmpty_iff.mp hnil)
        · exact .inr (.inl (not_le.mp hfull))
    · obtain ⟨hconn, -⟩ := receive_of_lt data heq hgt
      rw [hconn]
      refine .inr (.inr ?_)
      exact UInt32.lt_of_le_of_ne (UInt32.not_lt.mp hgt) heq

/-! ## The connection after the first delivery -/

/-- The connection looks as if it had taken the segment before. -/
structure Settled (c : TcpConnection) (seg : TcpHeader) (data : Bytes) : Prop where
  state : c.state.synchronized
  ack : c.state.readsAck → c.Acked seg
  data : c.state.receives → c.Absorbed seg data
  flush : ∀ now, c.flushSend now = (c, [])
  /-- our FIN lies behind what the segment acknowledges -/
  fin : c.state = .finWait1 ∨ c.state = .closing ∨ c.state = .lastAck →
    (hasFlag seg.flags tcpAck && seg.ackNum == c.sndNxt) = false

/-- A segment that was taken before changes nothing but the deadline of TIME_WAIT. -/
theorem Settled.processSegment (h : c.Settled seg data) (now : Instant)
    (hrst : ¬ hasFlag seg.flags tcpRst) :
    (c.processSegment now seg data).conn.untimed = c.untimed := by
  unfold TcpConnection.processSegment
  rw [if_neg (by simp [hrst])]
  have hflush := h.flush now
  cases hs : c.state with
  | established =>
      obtain ⟨hconn, hfin⟩ := (h.data (by rw [hs]; rfl)).receive
      simp [establishedSegment, (h.ack (by rw [hs]; rfl)).processAck, hconn, hfin, hflush]
  | finWait1 =>
      obtain ⟨hconn, hfin⟩ := (h.data (by rw [hs]; rfl)).receive
      have hbehind := h.fin (.inl hs)
      simp only [finWait1Segment, (h.ack (by rw [hs]; rfl)).processAck, hconn, hfin, hbehind]
      rfl
  | finWait2 =>
      obtain ⟨hconn, hfin⟩ := (h.data (by rw [hs]; rfl)).receive
      simp [finWait2Segment, (h.ack (by rw [hs]; rfl)).processAck, hconn, hfin]
  | closing =>
      have hbehind := h.fin (.inr (.inl hs))
      simp only [closingSegment, (h.ack (by rw [hs]; rfl)).processAck, hbehind]
      rfl
  | closeWait =>
      simp [closeWaitSegment, (h.ack (by rw [hs]; rfl)).processAck, hflush]
  | lastAck =>
      have hbehind := h.fin (.inr (.inr hs))
      simp only [lastAckSegment, (h.ack (by rw [hs]; rfl)).processAck, hbehind]
      rfl
  | timeWait =>
      unfold timeWaitSegment
      dsimp only
      split_ifs <;> rfl
  | _ => exact absurd h.state (by simp [hs, TcpState.synchronized])

/-- The arms that end in a flush. -/
theorem settled_flushSend (now : Instant) (hst : c.state = .established ∨ c.state = .closeWait)
    (hacked : c.Acked seg) (habs : c.state = .established → c.Absorbed seg data)
    (hack : seg.ackNum ≤ c.sndNxt) (hroom : c.sndNxt.toNat + c.sendPending.length + 1 < 2 ^ 32) :
    (c.flushSend now).1.Settled seg data := by
  obtain ⟨c₂, out, hloop, hcases⟩ := flushSend_cases now hst
  obtain ⟨queue, deadline, heq⟩ := hloop.eq
  have hagain := fun now' ↦ flushSend_again now now' c
  have hkept := hloop.kept
  have hin : c₂.inbound = c.inbound := by
    rw [heq]
    rfl
  have hacked₂ : c₂.Acked seg := by
    intro hflag
    obtain ⟨hle, hwnd, hprobe⟩ := hacked hflag
    rw [heq] at hkept ⊢
    exact ⟨hle, hwnd, fun hne ↦ ⟨(hkept hne).trans (hprobe hne).1, (hprobe hne).2⟩⟩
  rcases hcases with ⟨hclose, hlast, hflush⟩ | ⟨-, hflush⟩
  · -- the FIN went out, so `snd_nxt` has passed everything acknowledged before
    rw [hflush] at hagain ⊢
    have hnxt : (c₂.sndNxt + consumed (tcpFin ||| tcpAck) 0).toNat =
        c.sndNxt.toNat + c.sendPending.length + 1 := by
      have hone : consumed (tcpFin ||| tcpAck) 0 = 1 := by decide
      rw [hone, heq, hlast, add_one]
      dsimp only
      rw [shift_shift, toNat_shift (by omega), Nat.add_assoc]
    have hbehind : (hasFlag seg.flags tcpAck &&
        seg.ackNum == c₂.sndNxt + consumed (tcpFin ||| tcpAck) 0) = false := by
      rw [Bool.and_eq_false_iff]
      refine .inr (beq_eq_false_iff_ne.mpr fun hsame ↦ ?_)
      rw [UInt32.le_iff_toNat_le, hsame, hnxt] at hack
      omega
    refine ⟨?_, fun _ ↦ hacked₂, ?_, hagain, fun _ ↦ hbehind⟩
    · dsimp only
      split_ifs <;> rfl
    · intro hrec
      rcases hst with hs | hs
      · exact (habs hs).of_inbound hin
      · rw [hs] at hrec
        cases hrec
  · have hstate : c₂.state = c.state := by rw [heq]
    rw [hflush] at hagain ⊢
    refine ⟨?_, fun _ ↦ hacked₂, ?_, hagain, ?_⟩
    · rw [hstate]
      rcases hst with hs | hs <;> rw [hs] <;> rfl
    · intro hrec
      rcases hst with hs | hs
      · exact (habs hs).of_inbound hin
      · rw [hstate, hs] at hrec
        cases hrec
    · intro hfin
      rw [hstate] at hfin
      rcases hst with hs | hs <;> rw [hs] at hfin <;> simp at hfin

theorem settled_of_not_sends (hst : c.state.synchronized) (hno : c.state.sends = false)
    (hacked : c.Acked seg) (habs : c.state.receives → c.Absorbed seg data)
    (hfin : c.state = .finWait1 ∨ c.state = .closing ∨ c.state = .lastAck →
      (hasFlag seg.flags tcpAck && seg.ackNum == c.sndNxt) = false) : c.Settled seg data :=
  ⟨hst, fun _ ↦ hacked, habs, fun now ↦ flushSend_of_not_sends now hno, hfin⟩

theorem settled_of_timeWait (hst : c.state = .timeWait) : c.Settled seg data := by
  constructor
  · rw [hst]
    rfl
  · intro h
    rw [hst] at h
    cases h
  · intro h
    rw [hst] at h
    cases h
  · intro now
    refine flushSend_of_not_sends now ?_
    rw [hst]
    rfl
  · rintro (h | h | h) <;> rw [hst] at h <;> cases h

/-- What the receiving arms have in common: the acknowledgement is taken, the sending half
is as before, and without a FIN the data is absorbed. -/
theorem receive_processAck (hwrap : c.Unwrapped seg data) {r : Received}
    (hr : (c.processAck seg).receiveDataAndMaybeFin seg data = r) :
    r.conn.state = c.state ∧ r.conn.Acked seg ∧ r.conn.sndNxt = c.sndNxt ∧
      r.conn.sendPending = c.sendPending ∧ (r.fin = false → r.conn.Absorbed seg data) := by
  obtain ⟨una, queue, wnd, deadline, rto, hproc⟩ := processAck_eq c seg
  obtain ⟨nxt, buf, ooo, hrec⟩ := receive_eq (c.processAck seg) seg data
  have hacked := acked_processAck c seg
  have hooo : (c.processAck seg).oooBuffer = c.oooBuffer := by rw [hproc]
  have habs : r.fin = false → r.conn.Absorbed seg data := by
    intro hfin
    rw [← hr] at hfin ⊢
    refine absorbed_receive hwrap.segment ?_ hfin
    rw [hooo]
    exact hwrap.pieces
  rw [hr] at hrec
  refine ⟨?_, ?_, ?_, ?_, habs⟩
  · rw [hrec, hproc]
  · rw [hrec]
    exact hacked
  · rw [hrec, hproc]
  · rw [hrec, hproc]

theorem settled_establishedSegment (now : Instant) (hst : c.state = .established)
    (hack : seg.ackNum ≤ c.sndNxt) (hwrap : c.Unwrapped seg data) :
    (c.establishedSegment now seg data).conn.Settled seg data := by
  unfold establishedSegment
  dsimp only
  generalize hr : (c.processAck seg).receiveDataAndMaybeFin seg data = r
  obtain ⟨hstate, hacked, hnxt, hpend, habs⟩ := receive_processAck hwrap hr
  have hroom := hwrap.pending
  rw [← hnxt] at hack
  rw [← hnxt, ← hpend] at hroom
  cases hfin : r.fin with
  | true => exact settled_flushSend now (.inr rfl) hacked (fun h ↦ by cases h) hack hroom
  | false =>
      exact settled_flushSend now (.inl (hstate.trans hst)) hacked (fun _ ↦ habs hfin) hack hroom

theorem settled_finWait1Segment (now : Instant) (hst : c.state = .finWait1)
    (hwrap : c.Unwrapped seg data) : (c.finWait1Segment now seg data).conn.Settled seg data := by
  unfold finWait1Segment
  dsimp only
  generalize hr : (c.processAck seg).receiveDataAndMaybeFin seg data = r
  obtain ⟨hstate, hacked, hnxt, -, habs⟩ := receive_processAck hwrap hr
  rw [processAck_sndNxt, ← hnxt]
  generalize hours : (hasFlag seg.flags tcpAck && seg.ackNum == r.conn.sndNxt) = ours
  cases ours with
  | true =>
      cases hfin : r.fin with
      | true => exact settled_of_timeWait rfl
      | false =>
          refine settled_of_not_sends rfl rfl hacked (fun _ ↦ habs hfin) ?_
          rintro (h | h | h) <;> cases h
  | false =>
      cases hfin : r.fin with
      | true => exact settled_of_not_sends rfl rfl hacked (fun h ↦ by cases h) fun _ ↦ hours
      | false =>
          have hst' := hstate.trans hst
          change r.conn.Settled seg data
          exact settled_of_not_sends (by rw [hst']; rfl) (by rw [hst']; rfl) hacked
            (fun _ ↦ habs hfin) fun _ ↦ hours

theorem settled_finWait2Segment (now : Instant) (hst : c.state = .finWait2)
    (hwrap : c.Unwrapped seg data) : (c.finWait2Segment now seg data).conn.Settled seg data := by
  unfold finWait2Segment
  dsimp only
  generalize hr : (c.processAck seg).receiveDataAndMaybeFin seg data = r
  obtain ⟨hstate, hacked, -, -, habs⟩ := receive_processAck hwrap hr
  cases hfin : r.fin with
  | true => exact settled_of_timeWait rfl
  | false =>
      have hst' := hstate.trans hst
      change r.conn.Settled seg data
      refine settled_of_not_sends (by rw [hst']; rfl) (by rw [hst']; rfl) hacked
        (fun _ ↦ habs hfin) ?_
      rintro (h | h | h) <;> rw [hst'] at h <;> cases h

theorem settled_closingSegment (now : Instant) (hst : c.state = .closing) :
    (c.closingSegment now seg).conn.Settled seg data := by
  have hacked := acked_processAck c seg
  have hst' : (c.processAck seg).state = .closing := (processAck_state c seg).trans hst
  unfold closingSegment
  dsimp only
  split_ifs with hours
  · exact settled_of_timeWait rfl
  · refine settled_of_not_sends (by rw [hst']; rfl) (by rw [hst']; rfl) hacked ?_
      fun _ ↦ Bool.not_eq_true _ ▸ hours
    intro h
    rw [hst'] at h
    cases h

theorem settled_closeWaitSegment (now : Instant) (hst : c.state = .closeWait)
    (hack : seg.ackNum ≤ c.sndNxt) (hwrap : c.Unwrapped seg data) :
    (c.closeWaitSegment now seg).conn.Settled seg data := by
  have hacked := acked_processAck c seg
  have hst' : (c.processAck seg).state = .closeWait := (processAck_state c seg).trans hst
  have hpend : (c.processAck seg).sendPending = c.sendPending := by
    obtain ⟨una, queue, wnd, deadline, rto, heq⟩ := processAck_eq c seg
    rw [heq]
  have hroom := hwrap.pending
  rw [← processAck_sndNxt c seg] at hack
  rw [← processAck_sndNxt c seg, ← hpend] at hroom
  refine settled_flushSend now (.inr hst') hacked (fun h ↦ ?_) hack hroom
  rw [hst'] at h
  cases h

theorem settled_lastAckSegment (hst : c.state = .lastAck) :
    (c.lastAckSegment seg).conn.Settled seg data ∨
      (c.lastAckSegment seg).conn.state = .closed ∧ hasFlag seg.flags tcpAck := by
  have hacked := acked_processAck c seg
  have hst' : (c.processAck seg).state = .lastAck := (processAck_state c seg).trans hst
  unfold lastAckSegment
  dsimp only
  split_ifs with hours
  · rw [Bool.and_eq_true] at hours
    exact .inr ⟨rfl, hours.1⟩
  · refine .inl (settled_of_not_sends (by rw [hst']; rfl) (by rw [hst']; rfl) hacked ?_
      fun _ ↦ Bool.not_eq_true _ ▸ hours)
    intro h
    rw [hst'] at h
    cases h

/-- The segment leaves the connection settled, unless it acknowledges the last FIN. -/
theorem settled_processSegment (now : Instant) (hst : c.state.synchronized)
    (hrst : ¬ hasFlag seg.flags tcpRst) (hack : seg.ackNum ≤ c.sndNxt)
    (hwrap : c.Unwrapped seg data) :
    (c.processSegment now seg data).conn.Settled seg data ∨
      (c.processSegment now seg data).conn.state = .closed ∧ hasFlag seg.flags tcpAck := by
  unfold processSegment
  rw [if_neg (by simp [hrst])]
  cases hs : c.state with
  | established => exact .inl (settled_establishedSegment now hs hack hwrap)
  | finWait1 => exact .inl (settled_finWait1Segment now hs hwrap)
  | finWait2 => exact .inl (settled_finWait2Segment now hs hwrap)
  | closing => exact .inl (settled_closingSegment now hs)
  | closeWait => exact .inl (settled_closeWaitSegment now hs hack hwrap)
  | lastAck => exact settled_lastAckSegment hs
  | timeWait =>
      refine .inl (settled_of_timeWait ?_)
      dsimp only [timeWaitSegment]
      split_ifs <;> exact hs
  | _ =>
      rw [hs] at hst
      cases hst

theorem enqueue_of_synchronized (now : Instant) (hst : c.state.synchronized) :
    (c.processSegment now seg data).enqueue = false := by
  by_contra henq
  obtain ⟨hs, -⟩ := processSegment_enqueue (Bool.not_eq_false _ ▸ henq)
  rw [hs] at hst
  cases hst

end TcpConnection

namespace TcpTable

variable {t : TcpTable} {now now' : Instant} {iss iss' : UInt32} {ipHdr : IpHeader}
  {payload : Bytes} {seg : TcpHeader} {data : Bytes} {c : TcpConnection}

/-- The same maps, up to the instants at which TIME_WAIT ends. -/
structure SameUntimed (t t' : TcpTable) : Prop where
  config : t.config = t'.config
  acceptQueues : t.acceptQueues = t'.acceptQueues
  connections : ∀ k,
    (t.lookup k).map TcpConnection.untimed = (t'.lookup k).map TcpConnection.untimed

theorem demux_of_synchronized (hc : t.lookup (segmentKey ipHdr seg) = some c)
    (hst : c.state.synchronized) :
    (t.demux now iss ipHdr seg data).1 =
      (t.setConnection (segmentKey ipHdr seg)
        (c.processSegment now seg data).conn).cleanupClosedConnections := by
  unfold demux processSegment
  dsimp only
  rw [hc]
  dsimp only
  rw [TcpConnection.enqueue_of_synchronized now hst]
  rfl

/-- Handling a segment again changes nothing. -/
theorem demux_twice (hc : t.lookup (segmentKey ipHdr seg) = some c)
    (hst : c.state.synchronized) (hrst : ¬ hasFlag seg.flags tcpRst)
    (hack : seg.ackNum ≤ c.sndNxt) (hwrap : c.Unwrapped seg data) :
    SameUntimed ((t.demux now iss ipHdr seg data).1.demux now' iss' ipHdr seg data).1
      (t.demux now iss ipHdr seg data).1 := by
  rw [demux_of_synchronized hc hst]
  have hcases := TcpConnection.settled_processSegment now hst hrst hack hwrap
  generalize (c.processSegment now seg data).conn = c₁ at hcases
  have hlook := lookup_cleanup_setConnection t (segmentKey ipHdr seg) (segmentKey ipHdr seg) c₁
  rw [if_pos rfl] at hlook
  rcases hcases with hset | ⟨hclosed, hflag⟩
  · have hsync := hset.state
    have hopen : c₁.state ≠ .closed := by
      intro h
      rw [h] at hsync
      cases hsync
    rw [Option.filter_some, if_pos (by simpa using hopen)] at hlook
    rw [demux_of_synchronized hlook hsync]
    have hsame := hset.processSegment now' hrst
    generalize (c₁.processSegment now' seg data).conn = c₂ at hsame
    have hstate : c₂.untimed.state = c₁.untimed.state := by rw [hsame]
    change c₂.state = c₁.state at hstate
    refine ⟨rfl, rfl, fun k ↦ ?_⟩
    rw [lookup_cleanup_setConnection, lookup_cleanup_setConnection]
    by_cases hk : k = segmentKey ipHdr seg
    · rw [if_pos hk, if_pos hk, Option.filter_some, Option.filter_some, hstate,
        if_pos (by simpa using hopen), if_pos (by simpa using hopen)]
      exact congrArg some hsame
    · rw [if_neg hk, if_neg hk, Option.filter_filter]
      simp
  · -- the connection is gone, and what acknowledged its FIN opens no new one
    rw [Option.filter_some, if_neg (by simp [hclosed])] at hlook
    have hdemux : (((t.setConnection (segmentKey ipHdr seg) c₁).cleanupClosedConnections).demux
        now' iss' ipHdr seg data).1 =
        (t.setConnection (segmentKey ipHdr seg) c₁).cleanupClosedConnections := by
      unfold demux
      dsimp only
      rw [hlook]
      dsimp only
      rw [if_neg (by simp [hflag]), if_neg hrst]
    rw [hdemux]
    exact ⟨rfl, rfl, fun _ ↦ rfl⟩

/-- Handling a segment for a synchronized connection twice in a row is handling it once, up
to the instant at which TIME_WAIT ends; the other timers are not touched by the second
delivery. -/
theorem handleSegment_twice (hseg : acceptedSegment ipHdr payload = some (seg, data))
    (hc : t.lookup (segmentKey ipHdr seg) = some c) (hst : c.state.synchronized)
    (hrst : ¬ hasFlag seg.flags tcpRst) (hack : seg.ackNum ≤ c.sndNxt)
    (hwrap : c.Unwrapped seg data) :
    SameUntimed
      ((t.handleSegment now iss ipHdr payload).1.handleSegment now' iss' ipHdr payload).1
      (t.handleSegment now iss ipHdr payload).1 := by
  unfold handleSegment
  rw [hseg]
  exact demux_twice hc hst hrst hack hwrap

/-- Data that arrives with the window it was waiting for: the first delivery takes it, sends
what was pending and the FIN behind it; the second finds the connection in FIN_WAIT_1. -/
theorem handleSegment_twice_flush :
    ∃ (t : TcpTable) (p : Packet), (∃ c, t.lookup ⟨1, 2, 3, 4⟩ = some c ∧ c.state = .established ∧
        c.pendingClose ∧ c.sendPending = [9]) ∧
      (∃ c, (t.handleSegment 5 0 p.ipHeader p.segment).1.lookup ⟨1, 2, 3, 4⟩ = some c ∧
        c.state = .finWait1 ∧ c.recvBuffer = [7, 8]) ∧
      SameUntimed ((t.handleSegment 5 0 p.ipHeader p.segment).1.handleSegment 6 0
        p.ipHeader p.segment).1 (t.handleSegment 5 0 p.ipHeader p.segment).1 := by
  let c : TcpConnection :=
    { TcpConnection.new 0 with
      state := .established
      localAddr := 1
      localPort := 2
      remoteAddr := 3
      remotePort := 4
      sndUna := 101
      sndNxt := 101
      sndWnd := 0
      rcvNxt := 501
      pendingClose := true
      sendPending := [9] }
  let t : TcpTable := TcpTable.new.setConnection ⟨1, 2, 3, 4⟩ c
  let p : Packet := ⟨3, 1, ⟨4, 2, 501, 101, 80, tcpAck, 1000, 0, 0⟩, [7, 8]⟩
  have hseg : acceptedSegment p.ipHeader p.segment =
      some ({ p.hdr with checksum := p.checksum }, [7, 8]) := by
    decide +kernel
  have hafter : ((t.handleSegment 5 0 p.ipHeader p.segment).1.lookup ⟨1, 2, 3, 4⟩).map
      (fun c ↦ (c.state, c.recvBuffer)) = some (.finWait1, [7, 8]) := by
    decide +kernel
  obtain ⟨c', hc', hval⟩ := Option.map_eq_some_iff.mp hafter
  obtain ⟨hst, hbuf⟩ := Prod.mk.inj hval
  refine ⟨t, p, ⟨c, rfl, rfl, rfl, rfl⟩, ⟨c', hc', hst, hbuf⟩, ?_⟩
  refine handleSegment_twice hseg (c := c) rfl rfl (by decide) (by decide) ?_
  refine ⟨by decide, ?_, by decide⟩
  intro s d h
  cases h

end TcpTable

end MiniTcp
