import MiniTcp.Lib.Tiling
import MiniTcp.Tcp.Flush
import MiniTcp.Tcp.Host
import MiniTcp.Tcp.Sender

/-!
# The retransmission queue

As long as the peer acknowledges only what was sent and the numbers do not wrap,
the queue tiles the numbers from somewhere at or before `snd_una` up to `snd_nxt`,
and its first segment contains `snd_una`.
-/

namespace MiniTcp

open Serial Tiling

namespace UnackedSegment

def seqLen (u : UnackedSegment) : ℕ := MiniTcp.seqLen u.flags u.data.length

def wire (u : UnackedSegment) : UInt8 × UInt32 × Bytes := (u.flags, u.seq, u.data)

theorem toNat_endSeq {u : UnackedSegment} (h : u.seq.toNat + u.seqLen < 2 ^ 32) :
    u.endSeq.toNat = u.seq.toNat + u.seqLen := by
  rw [endSeq, consumed_eq, add_ofNat]
  exact toNat_shift h

end UnackedSegment

abbrev QueueTiles (a b : ℕ) (q : List UnackedSegment) : Prop :=
  Tiles (fun u ↦ u.seq.toNat) UnackedSegment.seqLen a b q

/-! ## What the actions do to queue and `snd_una` -/

/-- The acknowledgement moves `snd_una`: a newer one, or the one that completes the
handshake. -/
def TcpConnection.Advances (c : TcpConnection) (seg : TcpHeader) : Prop :=
  c.state.readsAck ∧ c.sndUna < seg.ackNum ∨ c.state.handshake ∧ seg.ackNum = c.sndNxt

namespace Act

variable {g : Guard} {c c' : TcpConnection} {a : Effect}

/-- `snd_una` and the queue move together: the queue grows, stays, or loses what a
new acknowledgement covers. -/
theorem queue_cases (h : Act g c a c') :
    (∃ flags data, QueuesNew c a c' flags data ∧ c'.sndUna = c.sndUna) ∨
      (QueuesNothing c a c' ∧ c'.sndUna = c.sndUna ∧
        c'.retransmitQueue.map UnackedSegment.wire = c.retransmitQueue.map UnackedSegment.wire) ∨
      (QueuesNothing c a c' ∧ ∃ seg, g.ack c seg ∧ c.Advances seg ∧ c'.sndUna = seg.ackNum ∧
        c'.retransmitQueue = c.retransmitQueue.dropWhile fun u ↦ u.endSeq ≤ seg.ackNum) := by
  rcases h.outbound_cases with ⟨flags, data, hq⟩ | hq
  · refine .inl ⟨flags, data, hq, ?_⟩
    have hout := hq.out
    cases h with
    | receive s deadline =>
        have hmem := TcpConnection.receive_out c _ _ _ (hout ▸ List.mem_singleton_self _)
        cases congrArg Emission.origin hmem
    | chunk | sendFin => rfl
    | _ => cases hout
  · refine .inr ?_
    cases h with
    | synAck hst _ _ heq hg => exact .inr ⟨hq, _, hg, .inr ⟨by rw [hst]; rfl, heq⟩, rfl, rfl⟩
    | finalAck hst _ heq hg => exact .inr ⟨hq, _, hg, .inr ⟨by rw [hst]; rfl, heq⟩, rfl, rfl⟩
    | @ack seg hst hack hg =>
        by_cases hnew : c.sndUna < seg.ackNum
        · refine .inr ⟨hq, seg, hg, .inl ⟨hst, hnew⟩, ?_⟩
          simp only [TcpConnection.processAck, if_pos hack, if_pos hnew]
          split_ifs <;> exact ⟨rfl, rfl⟩
        · refine .inl ⟨hq, ?_⟩
          simp only [TcpConnection.processAck, if_pos hack, if_neg hnew]
          split_ifs <;> exact ⟨rfl, rfl⟩
    | @receive seg payload =>
        obtain ⟨nxt, buf, ooo, hconn⟩ := TcpConnection.receive_eq c seg payload
        exact .inl ⟨hq, by rw [hconn], by rw [hconn]⟩
    | resend now rto retries hfront => exact .inl ⟨hq, rfl, by rw [hfront]; rfl⟩
    | chunk =>
        have hout := (hq.out _ (List.mem_singleton_self _)).1
        cases hout
    | sendFin =>
        have hout := (hq.out _ (List.mem_singleton_self _)).1
        cases hout
    | _ => exact .inl ⟨hq, rfl, rfl⟩

end Act

/-! ## The invariant -/

def NoWrap (c : TcpConnection) (w : Effect) : Prop := c.iss.toNat + sentLen w.out < 2 ^ 32

/-- The queue tiles the numbers up to `snd_nxt`, and every segment in it reaches
beyond `snd_una`. -/
structure QueueAt (c : TcpConnection) : Prop where
  tiles : ∃ a ≤ c.sndUna.toNat, QueueTiles a c.sndNxt.toNat c.retransmitQueue
  reaches : ∀ u ∈ c.retransmitQueue, c.sndUna.toNat < u.seq.toNat + u.seqLen
  iss_le : c.iss.toNat ≤ c.sndUna.toNat
  una_le : c.sndUna.toNat ≤ c.sndNxt.toNat

def Guard.AcksSent (g : Guard) : Prop := ∀ c seg, g.ack c seg → seg.ackNum ≤ c.sndNxt

section Step

variable {g : Guard} {c c' : TcpConnection} {w a : Effect} {flags : UInt8} {data : Bytes}

theorem SndInv.toNat_sndNxt (h : SndInv c w) (hw : NoWrap c w) :
    c.sndNxt.toNat = c.iss.toNat + sentLen w.out := by
  rw [h.next, toNat_shift hw]

theorem QueuesNew.seqLen_pos (hq : QueuesNew c a c' flags data) :
    0 < seqLen flags data.length := by
  rcases hq.kind with ⟨-, hne, -⟩ | ⟨rfl, rfl, -⟩
  · have hlen := List.length_pos_of_ne_nil hne
    unfold seqLen
    omega
  · decide

theorem QueueAt.queuesNew (h : QueueAt c) (hiss : c'.iss = c.iss) (huna : c'.sndUna = c.sndUna)
    (hq : QueuesNew c a c' flags data)
    (hnext : c'.sndNxt.toNat = c.sndNxt.toNat + seqLen flags data.length) : QueueAt c' := by
  obtain ⟨a, ha, htiles⟩ := h.tiles
  obtain ⟨now, hqueue⟩ := hq.queue
  have hpos := hq.seqLen_pos
  have hle := h.una_le
  refine ⟨⟨a, huna ▸ ha, ?_⟩, fun u hu ↦ ?_, by rw [hiss, huna]; exact h.iss_le, ?_⟩
  · rw [hqueue, hnext]
    have hlen : 0 < UnackedSegment.seqLen ⟨c.sndNxt, flags, data, now, initialRto, 0⟩ := hpos
    exact htiles.snoc rfl hlen
  · rw [huna]
    rw [hqueue] at hu
    rcases List.mem_append.mp hu with hu | hu
    · exact h.reaches u hu
    · rw [List.mem_singleton.mp hu]
      change c.sndUna.toNat < c.sndNxt.toNat + seqLen flags data.length
      omega
  · rw [huna]
    omega

theorem QueueAt.same (h : QueueAt c) (hiss : c'.iss = c.iss) (hq : QueuesNothing c a c')
    (huna : c'.sndUna = c.sndUna)
    (hqueue : c'.retransmitQueue.map UnackedSegment.wire =
      c.retransmitQueue.map UnackedSegment.wire) : QueueAt c' := by
  obtain ⟨a, ha, htiles⟩ := h.tiles
  refine ⟨⟨a, huna ▸ ha, ?_⟩, fun u hu ↦ ?_, by rw [hiss, huna]; exact h.iss_le,
    by rw [huna, hq.next]; exact h.una_le⟩
  · rw [hq.next]
    refine htiles.congr ?_
    have hmap := congrArg
      (List.map fun p : UInt8 × UInt32 × Bytes ↦ (p.2.1.toNat, seqLen p.1 p.2.2.length)) hqueue
    rw [List.map_map, List.map_map] at hmap
    exact hmap
  · obtain ⟨v, hv, hflags, hseq, hdata⟩ := hq.queue u hu
    have hreach := h.reaches v hv
    rw [UnackedSegment.seqLen, hflags, hseq, hdata] at hreach
    rwa [huna]

theorem QueueAt.advance (h : QueueAt c) (hiss : c'.iss = c.iss) (hq : QueuesNothing c a c')
    {seg : TcpHeader} (hadv : c.Advances seg) (hle : seg.ackNum ≤ c.sndNxt)
    (huna : c'.sndUna = seg.ackNum)
    (hqueue : c'.retransmitQueue =
      c.retransmitQueue.dropWhile fun u ↦ u.endSeq ≤ seg.ackNum) : QueueAt c' := by
  obtain ⟨a, ha, htiles⟩ := h.tiles
  have hnxt := c.sndNxt.toNat_lt
  have hile := h.iss_le
  rw [UInt32.le_iff_toNat_le] at hle
  have hge : c.sndUna.toNat ≤ seg.ackNum.toNat := by
    rcases hadv with ⟨-, hlt⟩ | ⟨-, heq⟩
    · exact Nat.le_of_lt (UInt32.lt_iff_toNat_lt.mp hlt)
    · rw [heq]
      exact h.una_le
  obtain ⟨⟨a', ha', htiles'⟩, hreach⟩ :=
    htiles.dropWhile (x := seg.ackNum.toNat) (p := fun u ↦ u.endSeq ≤ seg.ackNum)
      (fun u hu ↦ by
        -- below `snd_nxt` no end wraps, so the plain comparison of the source is right
        have hb := htiles.bounds hu
        rw [decide_eq_true_eq, UInt32.le_iff_toNat_le, UnackedSegment.toNat_endSeq (by omega)])
      (by omega)
  rw [← hqueue] at htiles' hreach
  refine ⟨⟨a', huna ▸ ha', by rw [hq.next]; exact htiles'⟩, by rw [huna]; exact hreach, ?_, ?_⟩
  · rw [hiss, huna]
    omega
  · rw [huna, hq.next]
    exact hle

theorem QueueAt.step (hg : Guard.AcksSent g) (hsnd : SndInv c w) (hact : Act g c a c')
    (h : NoWrap c w → QueueAt c) (hw : NoWrap c' (w + a)) : QueueAt c' := by
  have hsnd' := hsnd.step hact
  have hiss := hact.iss_eq
  have hw₀ : NoWrap c w := by
    unfold NoWrap at hw ⊢
    rw [hiss, Effect.add_out, sentLen_append] at hw
    omega
  have h := h hw₀
  rcases hact.queue_cases with ⟨flags, data, hq, huna⟩ | ⟨hq, huna, hqueue⟩ |
    ⟨hq, seg, hack, hadv, huna, hqueue⟩
  · refine h.queuesNew hiss huna hq ?_
    rw [hsnd'.toNat_sndNxt hw, hsnd.toNat_sndNxt hw₀, hiss, Effect.add_out, sentLen_append, hq.out,
      sentLen_queued, Nat.add_assoc]
    rfl
  · exact h.same hiss hq huna hqueue
  · exact h.advance hiss hq hadv (hg c seg hack) huna hqueue

end Step

namespace Track

variable {g : Guard} {t : Track}

def NoWrap (t : Track) : Prop := MiniTcp.NoWrap t.conn t.hist

theorem Opened.queueAt (h : t.Opened) (hw : t.NoWrap) : QueueAt t.conn := by
  have hnext := h.sndInv.toNat_sndNxt hw
  have hlen : sentLen t.hist.out = 1 := by
    rcases h with ⟨now, iss, key, rfl⟩ | ⟨now, iss, key, seg, rfl⟩
    · exact (sentLen_queued _).trans (by decide : seqLen tcpSyn 0 = 1)
    · exact (sentLen_queued _).trans (by decide : seqLen (tcpSyn ||| tcpAck) 0 = 1)
  obtain ⟨u, hq, hseq, hulen, huna⟩ : ∃ u, t.conn.retransmitQueue = [u] ∧ u.seq = t.conn.iss ∧
      u.seqLen = 1 ∧ t.conn.sndUna = t.conn.iss := by
    rcases h with ⟨now, iss, key, rfl⟩ | ⟨now, iss, key, seg, rfl⟩
    · exact ⟨_, rfl, rfl, (by decide : seqLen tcpSyn 0 = 1), rfl⟩
    · exact ⟨_, rfl, rfl, (by decide : seqLen (tcpSyn ||| tcpAck) 0 = 1), rfl⟩
  rw [hlen] at hnext
  refine ⟨⟨t.conn.iss.toNat, by rw [huna], ?_⟩, fun v hv ↦ ?_, by rw [huna], by rw [huna]; omega⟩
  · rw [hq]
    exact ⟨congrArg UInt32.toNat hseq, by omega, by rw [hulen, hnext]; rfl⟩
  · rw [hq] at hv
    rw [List.mem_singleton.mp hv, hseq, hulen, huna]
    omega

theorem Reachable.queueAt (hg : Guard.AcksSent g) (h : t.Reachable g) (hw : t.NoWrap) :
    QueueAt t.conn :=
  (h.invariant (P := fun c w ↦ SndInv c w ∧ (MiniTcp.NoWrap c w → QueueAt c))
    (fun _ hopen ↦ ⟨hopen.sndInv, hopen.queueAt⟩)
    (fun _ _ _ _ hinv hact ↦ ⟨hinv.1.step hact, QueueAt.step hg hinv.1 hact hinv.2⟩)).2 hw

end Track

/-! ## The queue of every connection in the table -/

/-- A peer that acknowledges only numbers that were sent. -/
def sentAcks : Guard where
  ack c seg := seg.ackNum ≤ c.sndNxt

theorem sentAcks_acksSent : Guard.AcksSent sentAcks := fun _ _ h ↦ h

theorem SndInv.fin_end {c : TcpConnection} {w : Effect} (h : SndInv c w) (hw : NoWrap c w)
    {u : UnackedSegment} (hu : u ∈ c.retransmitQueue) (hfin : hasFlag u.flags tcpFin) :
    c.sndNxt.toNat ≤ u.seq.toNat + u.seqLen := by
  obtain ⟨hone, -, hseq⟩ := (h.queue u hu).1.fin hfin
  have hlen := h.len
  have hpos : 1 ≤ u.seqLen := by
    simp [UnackedSegment.seqLen, seqLen, hfin]
  unfold NoWrap at hw
  rw [h.toNat_sndNxt hw, hseq, toNat_shift (by omega)]
  omega

/-- The retransmission queue of every connection in the table is a contiguous chain
from the segment that contains `snd_una` to `snd_nxt`. -/
theorem Host.retransmitQueue_contiguous {h : Host} {k : ConnectionKey} {t : Track}
    (hh : h.Reachable sentAcks) (ht : h.tracks k = some t) (hw : t.NoWrap) :
    h.table.lookup k = some t.conn ∧
      (t.conn.retransmitQueue.IsChain fun u v ↦ u.seq.toNat + u.seqLen = v.seq.toNat) ∧
      (∀ u ∈ t.conn.retransmitQueue.getLast?,
        u.seq.toNat + u.seqLen = t.conn.sndNxt.toNat) ∧
      (∀ u ∈ t.conn.retransmitQueue, 1 ≤ u.seqLen) ∧
      (∀ u ∈ t.conn.retransmitQueue, hasFlag u.flags tcpSyn → u.seq = t.conn.iss) ∧
      (∀ u ∈ t.conn.retransmitQueue.dropLast, ¬ hasFlag u.flags tcpFin) ∧
      (∀ u ∈ t.conn.retransmitQueue.head?, u.seq.toNat ≤ t.conn.sndUna.toNat ∧
        t.conn.sndUna.toNat < u.seq.toNat + u.seqLen) ∧
      (t.conn.retransmitQueue = [] ↔ t.conn.sndUna = t.conn.sndNxt) := by
  have hreach := hh.track ht
  have hsnd := hreach.sndInv
  have hq := hreach.queueAt sentAcks_acksSent hw
  obtain ⟨a, ha, htiles⟩ := hq.tiles
  have hle := hq.una_le
  refine ⟨lookup_of_track ht, htiles.isChain, htiles.getLast,
    fun u hu ↦ (htiles.bounds hu).2.1, fun u hu hf ↦ ((hsnd.queue u hu).1.syn hf).1,
    fun u hu hf ↦ ?_, fun u hu ↦ ⟨?_, hq.reaches u (List.mem_of_mem_head? hu)⟩, ?_⟩
  · have hend := hsnd.fin_end hw (List.mem_of_mem_dropLast hu) hf
    have hlt := htiles.end_lt_of_mem_dropLast hu
    omega
  · cases hqueue : t.conn.retransmitQueue with
    | nil =>
        rw [hqueue] at hu
        cases hu
    | cons v q =>
        rw [hqueue] at hu htiles
        obtain rfl : v = u := by simpa using hu
        exact (Nat.le_of_eq htiles.1).trans ha
  · constructor
    · intro hnil
      have hend : a = t.conn.sndNxt.toNat := htiles.eq_nil_iff.mp hnil
      exact UInt32.toNat_inj.mp (by omega)
    · intro heq
      by_contra hne
      obtain ⟨u, hu⟩ := List.exists_mem_of_ne_nil _ hne
      have hreaches := hq.reaches u hu
      have hbound := (htiles.bounds hu).2.2
      rw [heq] at hreaches
      omega

/-- An established connection with two data segments in flight. -/
theorem Host.retransmitQueue_contiguous_established :
    ∃ (h : Host) (k : ConnectionKey) (t : Track),
      t.conn.state = .established ∧ t.conn.retransmitQueue.length = 2 ∧
        h.table.lookup k = some t.conn ∧
        (t.conn.retransmitQueue.IsChain fun u v ↦ u.seq.toNat + u.seqLen = v.seq.toNat) ∧
        (∀ u ∈ t.conn.retransmitQueue.getLast?,
          u.seq.toNat + u.seqLen = t.conn.sndNxt.toNat) ∧
        (∀ u ∈ t.conn.retransmitQueue, 1 ≤ u.seqLen) ∧
        (∀ u ∈ t.conn.retransmitQueue, hasFlag u.flags tcpSyn → u.seq = t.conn.iss) ∧
        (∀ u ∈ t.conn.retransmitQueue.dropLast, ¬ hasFlag u.flags tcpFin) ∧
        (∀ u ∈ t.conn.retransmitQueue.head?, u.seq.toNat ≤ t.conn.sndUna.toNat ∧
          t.conn.sndUna.toNat < u.seq.toNat + u.seqLen) ∧
        (t.conn.retransmitQueue = [] ↔ t.conn.sndUna = t.conn.sndNxt) := by
  let k : ConnectionKey := ⟨1, 49152, 2, 80⟩
  let synAck : Packet := ⟨2, 1, ⟨80, 49152, 500, 1001, 80, tcpSyn ||| tcpAck, 1000, 0, 0⟩, []⟩
  let h₁ : Host := Host.new.step (.connect 0 1000 1 2 80)
  let h₂ := h₁.step (.segment 0 0 synAck.ipHeader synAck.segment)
  let h₃ := (h₂.step (.send 0 k [1, 2, 3])).step (.send 0 k [4, 5])
  have hsent : (h₁.tracks k).all (fun t ↦ 1001 ≤ t.conn.sndNxt) = true := by decide +kernel
  have hreach : h₃.Reachable sentAcks := by
    refine .tail _ (.tail _ (.tail _ (.tail _ (.start rfl) ?_) ?_)
      (Host.admits_of_call nofun nofun)) (Host.admits_of_call nofun nofun)
    · exact Host.admits_of_call nofun nofun
    · refine Host.admits_segment { synAck.hdr with checksum := synAck.checksum } []
        (by decide +kernel) fun t ht ↦ ⟨fun _ ↦ ?_, fun _ _ _ ↦ trivial⟩
      change h₁.tracks k = some t at ht
      rw [ht] at hsent
      exact (of_decide_eq_true hsent : (1001 : UInt32) ≤ t.conn.sndNxt)
  have hfacts : (h₃.tracks k).map (fun t ↦ (t.conn.state, t.conn.retransmitQueue.length,
      t.conn.iss.toNat + sentLen t.hist.out)) = some (.established, 2, 1006) := by
    decide +kernel
  obtain ⟨t, ht, hval⟩ := Option.map_eq_some_iff.mp hfacts
  simp only [Prod.mk.injEq] at hval
  obtain ⟨hst, htwo, hlen⟩ := hval
  have hw : t.NoWrap := by
    change t.conn.iss.toNat + sentLen t.hist.out < 2 ^ 32
    omega
  exact ⟨h₃, k, t, hst, htwo, Host.retransmitQueue_contiguous hreach ht hw⟩

end MiniTcp
