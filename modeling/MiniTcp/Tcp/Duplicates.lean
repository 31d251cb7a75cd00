import MiniTcp.Tcp.Drain
import MiniTcp.Tcp.System
import MiniTcp.Tcp.Timers

/-!
# Segments that were received before

When an acknowledgement is lost the peer sends the acknowledged segment again, and
only a second acknowledgement stops it.  Which duplicates the source answers depends
on the arm of the state machine that takes them: the three receiving states answer
data and FIN but not a repeated SYN,ACK, TIME_WAIT answers FIN, and the states after
the peer's FIN answer nothing of their own.
-/

namespace MiniTcp

namespace TcpConnection

variable {c : TcpConnection} {seg : TcpHeader} {data : Bytes} {now : Instant}

/-- The segment occupies sequence space, all of it before `rcv_nxt`. -/
def Duplicate (c : TcpConnection) (seg : TcpHeader) (data : Bytes) : Prop :=
  0 < seqLen seg.flags data.length ∧
    seg.seqNum.toNat + seqLen seg.flags data.length ≤ c.rcvNxt.toNat

/-- `receive_data_and_maybe_fin` or the TIME_WAIT arm answers the duplicate. -/
def answersDuplicate (c : TcpConnection) (seg : TcpHeader) (data : Bytes) : Bool :=
  (c.state.receives && (!data.isEmpty || hasFlag seg.flags tcpFin)) ||
    (c.state == .timeWait && hasFlag seg.flags tcpFin)

/-- What `flush_send` sends on the occasion. -/
def flushed (c : TcpConnection) (now : Instant) (seg : TcpHeader) : List Emission :=
  if c.state.sends then ((c.processAck seg).flushSend now).2 else []

/-! ## Everything a flush sends acknowledges -/

/-- The segment tells the peer of `c` how far `c` has come. -/
def Acknowledges (c : TcpConnection) (m : Emission) : Prop :=
  hasFlag m.flags tcpAck ∧ m.packet.hdr.ackNum = c.rcvNxt ∧ m.source = c.key

theorem acknowledges_sendSegment (c : TcpConnection) (o : Origin) {flags : UInt8} (seq : UInt32)
    (data : Bytes) (h : hasFlag flags tcpAck) :
    c.Acknowledges ⟨o, c.sendSegment flags seq data⟩ :=
  ⟨h, if_pos h, rfl⟩

theorem flushLoop_acknowledges (now : Instant) (fuel : ℕ) (c : TcpConnection) :
    ∀ m ∈ (flushLoop now fuel c).2, c.Acknowledges m := by
  induction fuel generalizing c with
  | zero =>
      intro m hm
      cases hm
  | succ fuel ih =>
      rw [flushLoop]
      split_ifs
      · intro m hm
        cases hm
      · intro m hm
        rcases List.mem_append.mp hm with hm | hm
        · rw [List.mem_singleton.mp hm]
          exact acknowledges_sendSegment c _ _ _ (by decide)
        · exact ih (c.sendChunk now c.chunkLen).1 m hm

theorem sendDeferredFin_acknowledges (now : Instant) (c : TcpConnection) :
    ∀ m ∈ (c.sendDeferredFin now).2, c.Acknowledges m := by
  intro m hm
  unfold sendDeferredFin at hm
  split_ifs at hm
  · split at hm
    · rw [List.mem_singleton.mp hm]
      exact acknowledges_sendSegment c _ _ _ (by decide)
    · rw [List.mem_singleton.mp hm]
      exact acknowledges_sendSegment c _ _ _ (by decide)
    · cases hm
  · cases hm

theorem flushSend_acknowledges (now : Instant) (c : TcpConnection) :
    ∀ m ∈ (c.flushSend now).2, c.Acknowledges m := by
  cases hst : c.state.sends with
  | false =>
      rw [flushSend_of_not_sends now hst]
      intro m hm
      cases hm
  | true =>
      obtain ⟨deadline, harm, -⟩ := armProbe_eq now c
      obtain ⟨queue, nxt, pending, hloop⟩ := flushLoop_eq now c.sendPending.length (c.armProbe now)
      rw [flushSend_of_sends now hst]
      intro m hm
      rcases List.mem_append.mp hm with hm | hm
      · have hall := flushLoop_acknowledges now _ _ m hm
        rw [harm] at hall
        exact hall
      · have hall := sendDeferredFin_acknowledges now _ m hm
        rw [hloop, harm] at hall
        exact hall

theorem flushed_acknowledges : ∀ m ∈ c.flushed now seg, c.Acknowledges m := by
  intro m hm
  unfold flushed at hm
  split_ifs at hm
  · obtain ⟨una, queue, wnd, deadline, rto, heq⟩ := processAck_eq c seg
    have hack := flushSend_acknowledges now _ m hm
    rw [heq] at hack
    exact hack
  · cases hm

theorem flushed_ne_nil_iff (now : Instant) (seg : TcpHeader)
    (hdefer : c.pendingClose → c.sendPending ≠ []) :
    c.flushed now seg ≠ [] ↔ c.state.sends ∧ c.sendPending ≠ [] ∧
      (c.processAck seg).bytesInFlight < (c.processAck seg).sndWnd := by
  obtain ⟨una, queue, wnd, deadline, rto, heq⟩ := processAck_eq c seg
  have hflush := flushSend_ne_nil_iff now (c := c.processAck seg) (by rwa [heq])
  have hstate : (c.processAck seg).state = c.state := by rw [heq]
  have hpending : (c.processAck seg).sendPending = c.sendPending := by rw [heq]
  rw [hstate, hpending] at hflush
  unfold flushed
  split_ifs with hst
  · exact hflush
  · exact iff_of_false (by simp) fun h ↦ hst h.1

/-! ## The answer to a duplicate -/

theorem sendAckOnly_processAck (c : TcpConnection) (seg : TcpHeader) :
    (c.processAck seg).sendAckOnly = c.sendAckOnly := by
  obtain ⟨una, queue, wnd, deadline, rto, h⟩ := processAck_eq c seg
  rw [h]
  rfl

theorem receive_duplicate (h : c.Duplicate seg data) :
    (c.processAck seg).receiveDataAndMaybeFin seg data =
      ⟨c.processAck seg, if !data.isEmpty || hasFlag seg.flags tcpFin then [c.sendAckOnly] else [],
        false⟩ := by
  have hnxt : (c.processAck seg).rcvNxt = c.rcvNxt :=
    congrArg Inbound.rcvNxt (processAck_inbound c seg)
  have hlt : seg.seqNum.toNat < c.rcvNxt.toNat := by
    have hpos := h.1
    have hle := h.2
    omega
  have hne : seg.seqNum ≠ (c.processAck seg).rcvNxt := by
    intro heq
    rw [heq, hnxt] at hlt
    omega
  have hgt : ¬ seg.seqNum > (c.processAck seg).rcvNxt := by
    rw [hnxt, gt_iff_lt, UInt32.lt_iff_toNat_lt]
    omega
  unfold receiveDataAndMaybeFin
  rw [if_neg hne, if_neg hgt, sendAckOnly_processAck]

theorem processSegment_duplicate (now : Instant) (hst : c.state.synchronized)
    (hrst : ¬ hasFlag seg.flags tcpRst) (h : c.Duplicate seg data) :
    (c.processSegment now seg data).out =
      (if c.answersDuplicate seg data then [c.sendAckOnly] else []) ++ c.flushed now seg := by
  unfold processSegment answersDuplicate flushed
  rw [if_neg (by simp [hrst])]
  cases hs : c.state with
  | established | finWait1 | finWait2 =>
      simp [establishedSegment, finWait1Segment, finWait2Segment, receive_duplicate h,
        TcpState.receives, TcpState.sends]
  | closing | lastAck =>
      simp only [closingSegment, lastAckSegment, TcpState.receives, TcpState.sends]
      split_ifs <;> simp_all
  | closeWait => simp [closeWaitSegment, TcpState.receives, TcpState.sends]
  | timeWait =>
      simp only [timeWaitSegment, TcpState.receives, TcpState.sends]
      split_ifs <;> simp_all
  | _ => simp [hs, TcpState.synchronized] at hst

end TcpConnection

namespace Host

variable {h : Host} {k : ConnectionKey} {t : Track} {now : Instant} {iss : UInt32}
  {ipHdr : IpHeader} {payload : Bytes} {seg : TcpHeader} {data : Bytes}

/-- A segment that was received before is acknowledged again exactly when the arm that
takes it answers, or when bytes are pending and the acknowledgement in the segment leaves
room in the window for them. -/
theorem duplicate_acknowledged_iff (hh : h.Reachable {}) (ht : h.tracks k = some t)
    (hst : t.conn.state.synchronized)
    (hseg : TcpTable.acceptedSegment ipHdr payload = some (seg, data))
    (hk : TcpTable.segmentKey ipHdr seg = k) (hrst : ¬ hasFlag seg.flags tcpRst)
    (hdup : t.conn.Duplicate seg data) :
    (∃ m ∈ h.out (.segment now iss ipHdr payload), hasFlag m.flags tcpAck ∧
        m.packet.hdr.ackNum = t.conn.rcvNxt ∧ m.source = k) ↔
      t.conn.state.receives ∧ (data ≠ [] ∨ hasFlag seg.flags tcpFin) ∨
        t.conn.state = .timeWait ∧ hasFlag seg.flags tcpFin ∨
        t.conn.state.sends ∧ t.conn.sendPending ≠ [] ∧
          (t.conn.processAck seg).bytesInFlight < (t.conn.processAck seg).sndWnd := by
  subst hk
  have hkey := hh.key ht
  have hout := TcpConnection.processSegment_duplicate now hst hrst hdup
  rw [Host.out_segment hseg ht, hout]
  have hanswers : t.conn.answersDuplicate seg data = true ↔
      t.conn.state.receives ∧ (data ≠ [] ∨ hasFlag seg.flags tcpFin) ∨
        t.conn.state = .timeWait ∧ hasFlag seg.flags tcpFin := by
    simp [TcpConnection.answersDuplicate]
  have hflushes := TcpConnection.flushed_ne_nil_iff now seg
    fun hclose ↦ ((hh.track ht).pendingClose hclose).1
  rw [← or_assoc, ← hanswers, ← hflushes]
  constructor
  · rintro ⟨m, hm, -⟩
    rcases List.mem_append.mp hm with hm | hm
    · split_ifs at hm with hans
      · exact .inl hans
      · cases hm
    · exact .inr (List.ne_nil_of_mem hm)
  · rintro (hans | hne)
    · refine ⟨t.conn.sendAckOnly, List.mem_append_left _ (by simp [hans]), ?_⟩
      rw [← hkey]
      exact TcpConnection.acknowledges_sendSegment _ _ _ _ (by decide)
    · obtain ⟨m, hm⟩ := List.exists_mem_of_ne_nil _ hne
      refine ⟨m, List.mem_append_right _ hm, ?_⟩
      rw [← hkey]
      exact TcpConnection.flushed_acknowledges m hm

/-- A data segment that arrives twice is acknowledged the second time, too. -/
theorem duplicate_acknowledged_data :
    ∃ (h : Host) (k : ConnectionKey) (t : Track) (p : Packet),
      h.tracks k = some t ∧ t.conn.rcvNxt = 503 ∧ p.hdr.seqNum = 501 ∧
        ∃ m ∈ h.out (.segment 0 0 p.ipHeader p.segment), hasFlag m.flags tcpAck ∧
          m.packet.hdr.ackNum = t.conn.rcvNxt ∧ m.source = k := by
  let k : ConnectionKey := ⟨1, 49152, 2, 80⟩
  let p : Packet := ⟨2, 1, ⟨80, 49152, 501, 1001, 80, tcpAck, 1000, 0, 0⟩, [1, 2]⟩
  let h₃ := Host.connected.step (.segment 0 0 p.ipHeader p.segment)
  have hreach : h₃.Reachable {} := Host.reachable_connected.call _
  have hfacts : (h₃.tracks k).map (fun t ↦ (t.conn.state, t.conn.rcvNxt)) =
      some (.established, 503) := by
    decide +kernel
  obtain ⟨t, ht, hval⟩ := Option.map_eq_some_iff.mp hfacts
  obtain ⟨hst, hnxt⟩ := Prod.mk.inj hval
  refine ⟨h₃, k, t, p, ht, hnxt, rfl, ?_⟩
  have hseg : TcpTable.acceptedSegment p.ipHeader p.segment =
      some ({ p.hdr with checksum := p.checksum }, [1, 2]) := by
    decide +kernel
  refine (duplicate_acknowledged_iff hreach ht (by rw [hst]; rfl) hseg rfl (by decide)
    ⟨by decide, by rw [hnxt]; decide⟩).mpr ?_
  exact .inl ⟨by rw [hst]; rfl, .inl (by decide)⟩

/-- The SYN,ACK whose acknowledgement was lost, repeated to an established connection,
and the FIN whose acknowledgement was lost, repeated in CLOSE_WAIT: neither is
answered. -/
theorem exists_duplicate_unanswered :
    ∃ (h h' : Host) (k : ConnectionKey) (t t' : Track) (p p' : Packet),
      h.Reachable {} ∧ h.tracks k = some t ∧ t.conn.state = .established ∧
      hasFlag p.hdr.flags tcpSyn ∧ p.data = [] ∧ t.conn.Duplicate p.hdr p.data ∧
      h.out (.segment 0 0 p.ipHeader p.segment) = [] ∧
      h'.Reachable {} ∧ h'.tracks k = some t' ∧ t'.conn.state = .closeWait ∧
      hasFlag p'.hdr.flags tcpFin ∧ t'.conn.Duplicate p'.hdr p'.data ∧
      h'.out (.segment 0 0 p'.ipHeader p'.segment) = [] := by
  let k : ConnectionKey := ⟨1, 49152, 2, 80⟩
  let synAck : Packet := ⟨2, 1, ⟨80, 49152, 500, 1001, 80, tcpSyn ||| tcpAck, 1000, 0, 0⟩, []⟩
  let fin : Packet := ⟨2, 1, ⟨80, 49152, 501, 1001, 80, tcpFin ||| tcpAck, 1000, 0, 0⟩, []⟩
  let h₃ := Host.connected.step (.segment 0 0 fin.ipHeader fin.segment)
  have hreach' : h₃.Reachable {} := Host.reachable_connected.call _
  have hfacts : (Host.connected.tracks k).map (fun t ↦ (t.conn.state, t.conn.rcvNxt)) =
      some (.established, 501) := by
    decide +kernel
  have hfacts' : (h₃.tracks k).map (fun t ↦ (t.conn.state, t.conn.rcvNxt)) =
      some (.closeWait, 502) := by
    decide +kernel
  obtain ⟨t, ht, hval⟩ := Option.map_eq_some_iff.mp hfacts
  obtain ⟨hst, hnxt⟩ := Prod.mk.inj hval
  obtain ⟨t', ht', hval'⟩ := Option.map_eq_some_iff.mp hfacts'
  obtain ⟨hst', hnxt'⟩ := Prod.mk.inj hval'
  exact ⟨Host.connected, h₃, k, t, t', synAck, fin, Host.reachable_connected, ht, hst, by decide,
    rfl, ⟨by decide, by rw [hnxt]; decide⟩, by decide +kernel, hreach', ht', hst', by decide,
    ⟨by decide, by rw [hnxt']; decide⟩, by decide +kernel⟩

end Host

end MiniTcp
