import MiniTcp.Tcp.Backoff
import MiniTcp.Tcp.Inbound
import MiniTcp.Tcp.Receiver
import MiniTcp.Tcp.SendSequence

/-!
# The events of an exchange

What the sending end does when its timers fire or an acknowledgement arrives, and what
the receiving end does with a segment, one event at a time: the front of the
retransmission queue is repeated, a segment that occupies numbers is answered, a newer
acknowledgement takes segments off the queue, and a closed window is probed.
-/

namespace MiniTcp

open Serial

theorem Transmits.mem {now : Instant} {q q' : List UnackedSegment} {out : List Emission}
    (h : Transmits now q out q') (hout : ∀ m ∈ out, m.origin ≠ .retransmit) :
    ∀ v ∈ q', v ∈ q ∨ v.retryCount = 0 := by
  induction h with
  | nil q => exact fun v hv ↦ .inl hv
  | queued u hm hu _ ih =>
      intro v hv
      rcases ih (List.forall_mem_cons.mp hout).2 v hv with hv | hzero
      · rcases List.mem_append.mp hv with hv | hv
        · exact .inl hv
        · rw [List.mem_singleton.mp hv]
          exact .inr hu.2.2
      · exact .inr hzero
  | resent hm => exact absurd hm (List.forall_mem_cons.mp hout).1
  | other hm _ ih => exact ih (List.forall_mem_cons.mp hout).2

namespace TcpConnection

variable {c : TcpConnection} {now : Instant} {seg : TcpHeader} {payload : Bytes}

/-! ## What a flush does to the queue -/

theorem flushLoop_queue (now : Instant) (fuel : ℕ) (c : TcpConnection) :
    c.retransmitQueue <+: (flushLoop now fuel c).1.retransmitQueue ∧
      ∀ m ∈ (flushLoop now fuel c).2, m.origin = .queued := by
  induction fuel generalizing c with
  | zero => exact ⟨List.prefix_refl _, fun m hm ↦ (List.not_mem_nil hm).elim⟩
  | succ fuel ih =>
      rw [flushLoop]
      split_ifs
      · exact ⟨List.prefix_refl _, fun m hm ↦ (List.not_mem_nil hm).elim⟩
      · obtain ⟨hqueue, hout⟩ := ih (c.sendChunk now c.chunkLen).1
        refine ⟨(List.prefix_append _ _).trans hqueue, fun m hm ↦ ?_⟩
        rcases List.mem_cons.mp hm with rfl | hm
        · rfl
        · exact hout m hm

theorem sendDeferredFin_queue (now : Instant) (c : TcpConnection) :
    c.retransmitQueue <+: (c.sendDeferredFin now).1.retransmitQueue ∧
      ∀ m ∈ (c.sendDeferredFin now).2, m.origin = .queued := by
  have hfin : ∀ m ∈ (c.queueAndSend now (tcpFin ||| tcpAck) []).2, m.origin = .queued := by
    intro m hm
    rw [List.mem_singleton.mp hm]
  unfold sendDeferredFin
  split_ifs
  · split
    · exact ⟨List.prefix_append _ _, hfin⟩
    · exact ⟨List.prefix_append _ _, hfin⟩
    · exact ⟨List.prefix_refl _, fun m hm ↦ (List.not_mem_nil hm).elim⟩
  · exact ⟨List.prefix_refl _, fun m hm ↦ (List.not_mem_nil hm).elim⟩

theorem flushSend_queue (now : Instant) (c : TcpConnection) :
    c.retransmitQueue <+: (c.flushSend now).1.retransmitQueue ∧
      ∀ m ∈ (c.flushSend now).2, m.origin = .queued := by
  cases hst : c.state.sends with
  | false =>
      rw [flushSend_of_not_sends now hst]
      exact ⟨List.prefix_refl _, fun m hm ↦ (List.not_mem_nil hm).elim⟩
  | true =>
      obtain ⟨deadline, harm, -⟩ := armProbe_eq now c
      obtain ⟨hloop, hout⟩ := flushLoop_queue now c.sendPending.length (c.armProbe now)
      obtain ⟨hfin, hout'⟩ := sendDeferredFin_queue now
        (flushLoop now c.sendPending.length (c.armProbe now)).1
      rw [flushSend_of_sends now hst]
      refine ⟨List.IsPrefix.trans ?_ hfin, fun m hm ↦ ?_⟩
      · rwa [harm] at hloop ⊢
      · exact (List.mem_append.mp hm).elim (hout m) (hout' m)

theorem flushSend_entries (now : Instant) (c : TcpConnection) :
    ∀ v ∈ (c.flushSend now).1.retransmitQueue, v ∈ c.retransmitQueue ∨ v.retryCount = 0 := by
  refine (flushSend_transmits now c).mem fun m hm ho ↦ ?_
  rw [(flushSend_queue now c).2 m hm] at ho
  cases ho

theorem flushSend_sndUna (now : Instant) (c : TcpConnection) :
    (c.flushSend now).1.sndUna = c.sndUna := by
  cases hst : c.state.sends with
  | false => rw [flushSend_of_not_sends now hst]
  | true =>
      obtain ⟨c₂, data, hloop, hcases⟩ := flushSend_cases now (sends_iff.mp hst)
      obtain ⟨queue, deadline, heq⟩ := hloop.eq
      rcases hcases with ⟨-, -, hflush⟩ | ⟨-, hflush⟩
      · rw [hflush, heq]
        rfl
      · rw [hflush, heq]

/-- A flush that the window stops before the first byte arms the persist timer. -/
theorem flushSend_of_blocked (now : Instant) (hst : c.state.sends) (hchunk : c.chunkLen = 0)
    (hne : c.sendPending ≠ []) : c.flushSend now = (c.armProbe now, []) := by
  obtain ⟨deadline, harm, -⟩ := armProbe_eq now c
  have hchunk' : (c.armProbe now).chunkLen = 0 := by rwa [harm]
  have hdefer : (c.armProbe now).sendDeferredFin now = (c.armProbe now, []) := by
    unfold sendDeferredFin
    rw [if_neg]
    rw [harm]
    exact fun h ↦ hne h.2
  rw [flushSend_of_sends now hst, flushLoop_of_chunkLen now _ hchunk']
  dsimp only
  rw [hdefer]
  rfl

/-! ## The timers -/

/-- The front of the queue has timed out and is repeated. -/
theorem tick_resends {front : UnackedSegment} {rest : List UnackedSegment}
    (htw : c.state ≠ .timeWait) (hq : c.retransmitQueue = front :: rest)
    (hdue : front.rto ≤ now - front.sentAt) (hleft : front.retryCount < maxRetries) :
    ⟨.retransmit, c.sendSegment front.flags front.seq front.data⟩ ∈ (c.tick now).2 ∧
      ∃ c₂ : TcpConnection, c₂.state = c.state ∧ c₂.sndUna = c.sndUna ∧
        c₂.inbound = c.inbound ∧ c₂.retransmitQueue = front.resent now :: rest ∧
        (c.tick now).1 = (c₂.flushSend now).1 := by
  obtain ⟨deadline, rto, hprobe⟩ := tickProbe_eq now c
  have hq₁ : (c.tickProbe now).1.retransmitQueue = front :: rest := by rw [hprobe]; exact hq
  have hup : (c.tickProbe now).1.givesUp now = false := by
    unfold givesUp
    rw [hq₁]
    simpa using fun _ ↦ hleft
  have hfront : (c.tickProbe now).1.retransmitFront now =
      ({ (c.tickProbe now).1 with retransmitQueue := front.resent now :: rest },
        [⟨.retransmit, (c.tickProbe now).1.sendSegment front.flags front.seq front.data⟩]) := by
    unfold retransmitFront
    rw [hq₁]
    dsimp only
    rw [if_pos hdue]
    rfl
  have hwire : (c.tickProbe now).1.sendSegment front.flags front.seq front.data =
      c.sendSegment front.flags front.seq front.data := by
    rw [hprobe]
    rfl
  unfold tick
  rw [if_neg htw]
  dsimp only
  rw [hup, if_neg (by decide), hfront, hwire]
  refine ⟨?_, _, ?_, ?_, ?_, rfl, rfl⟩
  · exact List.mem_append_left _ (List.mem_append_right _ (List.mem_singleton_self _))
  · rw [hprobe]
  · rw [hprobe]
  · rw [hprobe]
    rfl

theorem tick_of_queue_nil (htw : c.state ≠ .timeWait) (hq : c.retransmitQueue = []) :
    c.tick now = (((c.tickProbe now).1.flushSend now).1,
      (c.tickProbe now).2 ++ ((c.tickProbe now).1.flushSend now).2) := by
  obtain ⟨deadline, rto, hprobe⟩ := tickProbe_eq now c
  have hq₁ : (c.tickProbe now).1.retransmitQueue = [] := by rw [hprobe]; exact hq
  have hup : (c.tickProbe now).1.givesUp now = false := by
    unfold givesUp
    rw [hq₁]
  have hfront : (c.tickProbe now).1.retransmitFront now = ((c.tickProbe now).1, []) := by
    unfold retransmitFront
    rw [hq₁]
  unfold tick
  rw [if_neg htw]
  dsimp only
  rw [hup, if_neg (by decide), hfront, List.append_nil]

theorem tick_idle (now : Instant) (htw : c.state ≠ .timeWait) (hq : c.retransmitQueue = []) :
    ((c.tick now).1.state = .closed → c.state = .closed) ∧ (c.tick now).1.sndUna = c.sndUna ∧
      ∀ v ∈ (c.tick now).1.retransmitQueue, v.retryCount = 0 := by
  obtain ⟨deadline, rto, hprobe⟩ := tickProbe_eq now c
  rw [tick_of_queue_nil htw hq]
  refine ⟨fun hc ↦ ?_, ?_, fun v hv ↦ (flushSend_entries now _ v hv).resolve_left fun hold ↦ ?_⟩
  · have hclosed := (flushSend_receives now _).2 hc
    rwa [hprobe] at hclosed
  · rw [flushSend_sndUna, hprobe]
  · rw [hprobe, hq] at hold
    cases hold

/-- Nothing is in flight and the window is closed: a tick arms the persist timer and
sends a probe when it has run out. -/
theorem tick_of_blocked (now : Instant) (hst : c.state.sends) (hq : c.retransmitQueue = [])
    (hwnd : c.sndWnd = 0) (hne : c.sendPending ≠ []) :
    (∃ d rto, (c.tick now).1 = { c with probeDeadline := some d, probeRto := rto }) ∧
      ∀ d, c.probeDeadline = some d → d ≤ now →
        ⟨.probe, c.sendSegment tcpAck (c.sndUna - 1) [0]⟩ ∈ (c.tick now).2 := by
  have htw : c.state ≠ .timeWait := by
    intro htw
    rw [htw] at hst
    cases hst
  obtain ⟨deadline, rto, hprobe⟩ := tickProbe_eq now c
  have hblocked : (c.tickProbe now).1.flushSend now = ((c.tickProbe now).1.armProbe now, []) := by
    apply flushSend_of_blocked now
    · rwa [hprobe]
    · rw [hprobe, chunkLen_eq_zero_iff]
      right
      change c.sndWnd ≤ _
      rw [hwnd, UInt32.le_iff_toNat_le]
      exact Nat.zero_le _
    · rwa [hprobe]
  rw [tick_of_queue_nil htw hq, hblocked]
  refine ⟨?_, fun d hd hle ↦ List.mem_append_left _ ?_⟩
  · unfold armProbe
    rw [hprobe, if_pos ⟨hwnd, hne⟩]
    exact ⟨_, _, rfl⟩
  · unfold tickProbe
    rw [if_pos (sends_iff.mp hst), hd]
    dsimp only
    rw [if_pos hle]
    exact List.mem_singleton_self _

theorem tick_shrinks (hst : c.state.sends) (hq : c.retransmitQueue = [])
    (huna : c.sndUna = c.sndNxt) (hwnd : c.sndWnd ≠ 0) (hne : c.sendPending ≠ []) :
    (c.tick now).1.sendPending.length < c.sendPending.length := by
  have htw : c.state ≠ .timeWait := by
    intro htw
    rw [htw] at hst
    cases hst
  obtain ⟨deadline, rto, hprobe⟩ := tickProbe_eq now c
  have hpend : (c.tickProbe now).1.sendPending = c.sendPending := by rw [hprobe]
  have hroom : ¬ (c.tickProbe now).1.sndWnd ≤ (c.tickProbe now).1.bytesInFlight := by
    rw [hprobe]
    change ¬ c.sndWnd ≤ c.sndNxt - c.sndUna
    rw [huna, UInt32.sub_self, UInt32.le_iff_toNat_le]
    exact fun hle ↦ hwnd (UInt32.toNat_inj.mp (Nat.le_zero.mp hle))
  rw [tick_of_queue_nil htw hq, ← hpend]
  exact flushSend_shrinks now (by rwa [hprobe]) (by rwa [hpend]) hroom

/-! ## A segment that occupies numbers is answered -/

theorem sendAckOnly_mem_receive (h : payload ≠ [] ∨ hasFlag seg.flags tcpFin) :
    (c.receiveDataAndMaybeFin seg payload).conn.sendAckOnly ∈
      (c.receiveDataAndMaybeFin seg payload).out := by
  have hany : !payload.isEmpty || hasFlag seg.flags tcpFin := by
    rcases h with hne | hfin
    · simp [hne]
    · simp [hfin]
  have hsome : (c.receiveDataAndMaybeFin seg payload).out ≠ [] := by
    unfold receiveDataAndMaybeFin
    by_cases heq : seg.seqNum = c.rcvNxt
    · rw [if_pos heq]
      dsimp only
      rw [if_pos (by rw [Bool.or_right_comm, hany, Bool.true_or])]
      exact List.cons_ne_nil _ _
    · rw [if_neg heq]
      by_cases hgt : seg.seqNum > c.rcvNxt
      · rw [if_pos hgt]
        exact List.cons_ne_nil _ _
      · rw [if_neg hgt]
        dsimp only
        rw [if_pos hany]
        exact List.cons_ne_nil _ _
  obtain ⟨m, hm⟩ := List.exists_mem_of_ne_nil _ hsome
  rwa [← receive_out c seg payload m hm]

theorem receive_takes (payload : Bytes) (heq : seg.seqNum = c.rcvNxt) :
    c.recvBuffer.length + payload.length ≤
        (c.receiveDataAndMaybeFin seg payload).conn.recvBuffer.length ∧
      (c.receiveDataAndMaybeFin seg payload).fin = hasFlag seg.flags tcpFin := by
  obtain ⟨hconn, hfin⟩ := receive_of_eq payload heq
  obtain ⟨bytes, hbuf, -⟩ := splice_appends c.oooBuffer.entries.length (c.appendInOrder payload)
  refine ⟨?_, hfin⟩
  have hlen : (splice c.oooBuffer.entries.length (c.appendInOrder payload)).1.recvBuffer.length =
      c.recvBuffer.length + payload.length + bytes.length := by
    rw [hbuf, List.length_append]
    change (c.recvBuffer ++ payload).length + _ = _
    rw [List.length_append]
  rw [hconn]
  dsimp only
  split_ifs
  · change _ ≤ (splice c.oooBuffer.entries.length (c.appendInOrder payload)).1.recvBuffer.length
    omega
  · omega

/-- The segment goes through `receive_data_and_maybe_fin` of a control block with the
same receiving half, and what that sends is sent. -/
theorem processSegment_takes (now : Instant) (hdata : c.TakesData seg)
    (hne : payload ≠ [] ∨ hasFlag seg.flags tcpFin) :
    ∃ c₀ : TcpConnection, c₀.inbound = c.inbound ∧
      (c.processSegment now seg payload).conn.inbound =
        (c₀.receiveDataAndMaybeFin seg payload).conn.inbound ∧
      (c.processSegment now seg payload).fin = (c₀.receiveDataAndMaybeFin seg payload).fin ∧
      (∀ m ∈ (c₀.receiveDataAndMaybeFin seg payload).out,
        m ∈ (c.processSegment now seg payload).out) ∧
      (c.processSegment now seg payload).conn.state ≠ .closed := by
  obtain ⟨hrst, hst | ⟨hst, hack, heq⟩⟩ := hdata
  · have hcongr := receive_congr seg payload (processAck_inbound c seg)
    obtain ⟨hin, hfin, -, hopen⟩ := processSegment_inbound now payload hst hrst
    refine ⟨c.processAck seg, processAck_inbound c seg, hin.trans hcongr.1.symm,
      hfin.trans hcongr.2.symm, fun m hm ↦ ?_, hopen⟩
    unfold processSegment
    rw [if_neg (by simp [hrst])]
    cases hs : c.state with
    | established => exact List.mem_append_left _ hm
    | finWait1 | finWait2 => exact hm
    | _ =>
        rw [hs] at hst
        cases hst
  · have hbool : !payload.isEmpty || hasFlag seg.flags tcpFin := by
      rcases hne with hne | hfin
      · simp [hne]
      · simp [hfin]
    have hsame : c.processSegment now seg payload = c.synRcvdSegment seg payload := by
      unfold processSegment
      rw [if_neg (by simp [hrst]), hst]
    rw [hsame]
    unfold synRcvdSegment
    rw [if_pos (by simp [hack, heq])]
    dsimp only
    rw [if_pos hbool]
    refine ⟨_, ?_, ?_, rfl, fun m hm ↦ hm, ?_⟩
    · rfl
    · split_ifs <;> rfl
    · split_ifs
      · simp
      · rw [receive_state]
        simp

theorem advertiseWindow_congr {c' : TcpConnection} (h : c'.inbound = c.inbound) :
    c'.advertiseWindow = c.advertiseWindow := by
  unfold advertiseWindow
  rw [bufferedBytes_congr h, show c'.recvBufferCap = c.recvBufferCap from
    congrArg Inbound.recvBufferCap h]

theorem advertiseWindow_ne_zero (hused : c.bufferedBytes = 0) (hcap : 0 < c.recvBufferCap) :
    c.advertiseWindow ≠ 0 := by
  unfold advertiseWindow
  dsimp only
  rw [hused, if_neg (by omega), Nat.sub_zero]
  intro hzero
  have hnat := congrArg UInt16.toNat hzero
  rw [UInt16.toNat_ofNat', Nat.mod_eq_of_lt (by omega), UInt16.toNat_zero] at hnat
  omega

/-- The answer carries the new `rcv_nxt` and the new window. -/
theorem processSegment_answers (now : Instant) (hdata : c.TakesData seg)
    (hne : payload ≠ [] ∨ hasFlag seg.flags tcpFin) :
    ∃ m ∈ (c.processSegment now seg payload).out, m.flags = tcpAck ∧
      m.packet.hdr.ackNum = (c.processSegment now seg payload).conn.rcvNxt ∧
      m.packet.hdr.window = (c.processSegment now seg payload).conn.advertiseWindow := by
  obtain ⟨c₀, -, hin, -, hout, -⟩ := processSegment_takes now hdata hne
  refine ⟨_, hout _ (sendAckOnly_mem_receive hne), rfl, ?_, (advertiseWindow_congr hin).symm⟩
  exact (congrArg Inbound.rcvNxt hin).symm

theorem processSegment_takes_next (now : Instant) (hdata : c.TakesData seg)
    (hne : payload ≠ [] ∨ hasFlag seg.flags tcpFin) (heq : seg.seqNum = c.rcvNxt) :
    c.recvBuffer.length + payload.length ≤
        (c.processSegment now seg payload).conn.recvBuffer.length ∧
      (c.processSegment now seg payload).fin = hasFlag seg.flags tcpFin := by
  obtain ⟨c₀, hin₀, hin, hfin, -⟩ := processSegment_takes now hdata hne
  have hbuf₀ : c₀.recvBuffer = c.recvBuffer := congrArg Inbound.recvBuffer hin₀
  have hnxt₀ : c₀.rcvNxt = c.rcvNxt := congrArg Inbound.rcvNxt hin₀
  have hbuf : (c.processSegment now seg payload).conn.recvBuffer =
      (c₀.receiveDataAndMaybeFin seg payload).conn.recvBuffer := congrArg Inbound.recvBuffer hin
  obtain ⟨hlen, hflag⟩ := receive_takes payload (heq.trans hnxt₀.symm)
  rw [hbuf, ← hbuf₀]
  exact ⟨hlen, hfin.trans hflag⟩

theorem processSegment_ignores (now : Instant) (hdata : c.TakesData seg)
    (hne : payload ≠ [] ∨ hasFlag seg.flags tcpFin) (hlt : seg.seqNum < c.rcvNxt) :
    (c.processSegment now seg payload).conn.inbound = c.inbound := by
  obtain ⟨c₀, hin₀, hin, -⟩ := processSegment_takes now hdata hne
  have hnxt₀ : c₀.rcvNxt = c.rcvNxt := congrArg Inbound.rcvNxt hin₀
  rw [← hnxt₀] at hlt
  rw [hin, (receive_of_lt payload (UInt32.ne_of_lt hlt) (UInt32.lt_asymm hlt)).1, hin₀]

/-! ## A newer acknowledgement -/

theorem processAck_sndUna (hack : hasFlag seg.flags tcpAck) :
    (c.processAck seg).sndUna = if seg.ackNum > c.sndUna then seg.ackNum else c.sndUna := by
  unfold processAck
  rw [if_pos hack]
  by_cases hnew : seg.ackNum > c.sndUna
  · rw [if_pos hnew, if_pos hnew]
    dsimp only
    split_ifs <;> rfl
  · rw [if_neg hnew, if_neg hnew]
    dsimp only
    split_ifs <;> rfl

theorem processSegment_acked (now : Instant) (payload : Bytes) (hst : c.state.readsAck)
    (hrst : ¬ hasFlag seg.flags tcpRst) :
    ∃ c₁ : TcpConnection, c₁.sndUna = (c.processAck seg).sndUna ∧
      c₁.retransmitQueue = (c.processAck seg).retransmitQueue ∧
      c₁.state.handshake = false ∧
      (c₁.state = .closed → c.state = .lastAck ∧ seg.ackNum = c.sndNxt) ∧
      ((c.processSegment now seg payload).conn = c₁ ∨
        (c.processSegment now seg payload).conn = (c₁.flushSend now).1) := by
  have hstate := processAck_state c seg
  obtain ⟨nxt, buf, ooo, hrec⟩ := receive_eq (c.processAck seg) seg payload
  unfold processSegment
  rw [if_neg (by simp [hrst])]
  cases hs : c.state with
  | established =>
      simp only [establishedSegment]
      refine ⟨_, ?_, ?_, ?_, ?_, .inr rfl⟩
      all_goals
        rw [hrec]
        split_ifs
      all_goals simp [hs, TcpState.handshake]
  | closeWait =>
      rw [hs] at hstate
      exact ⟨c.processAck seg, rfl, rfl, by rw [hstate]; rfl, by simp [hs], .inr rfl⟩
  | finWait1 =>
      obtain ⟨s, deadline, hconn, hafter⟩ := finWait1Segment_conn seg payload now hs
      rw [hstate, hs] at hafter
      refine ⟨_, ?_, ?_, (hafter.handshake rfl).1, fun hclosed ↦ ?_, .inl hconn⟩
      · rw [hrec]
      · rw [hrec]
      · dsimp only at hclosed
        subst hclosed
        cases hfin : ((c.processAck seg).receiveDataAndMaybeFin seg payload).fin <;>
          simp [hfin, TcpState.AfterReceive] at hafter
  | finWait2 =>
      simp only [finWait2Segment, enterTimeWait]
      refine ⟨_, ?_, ?_, ?_, ?_, .inl rfl⟩
      all_goals
        rw [hrec]
        split_ifs
      all_goals simp [hs, TcpState.handshake]
  | closing =>
      simp only [closingSegment, enterTimeWait]
      refine ⟨_, ?_, ?_, ?_, ?_, .inl rfl⟩
      all_goals split_ifs
      all_goals simp [hs, TcpState.handshake]
  | lastAck =>
      simp only [lastAckSegment]
      refine ⟨_, ?_, ?_, ?_, ?_, .inl rfl⟩
      all_goals split_ifs with hours
      all_goals simp_all [TcpState.handshake]
  | _ =>
      rw [hs] at hst
      cases hst

/-- After `process_ack` the sending half changes only by a flush; the acknowledgement of
the FIN is what closes a connection in LAST_ACK. -/
theorem processSegment_acks (now : Instant) (payload : Bytes) (hst : c.state.readsAck)
    (hrst : ¬ hasFlag seg.flags tcpRst) :
    (c.processSegment now seg payload).conn.sndUna = (c.processAck seg).sndUna ∧
      (∀ v ∈ (c.processSegment now seg payload).conn.retransmitQueue,
        v ∈ c.retransmitQueue ∨ v.retryCount = 0) ∧
      ((c.processSegment now seg payload).conn.state = .closed →
        c.state = .lastAck ∧ seg.ackNum = c.sndNxt) ∧
      (c.processSegment now seg payload).conn.state.handshake = false := by
  obtain ⟨c₁, huna, hqueue, hshake, hclosed, heq | heq⟩ :=
    processSegment_acked now payload hst hrst
  · rw [heq, hqueue]
    exact ⟨huna, fun v hv ↦ .inl ((processAck_suffix c seg).subset hv), hclosed, hshake⟩
  · rw [heq]
    refine ⟨(flushSend_sndUna now c₁).trans huna, fun v hv ↦ ?_, fun hc ↦ ?_, ?_⟩
    · rcases flushSend_entries now c₁ v hv with hv | hzero
      · rw [hqueue] at hv
        exact .inl ((processAck_suffix c seg).subset hv)
      · exact .inr hzero
    · exact hclosed ((flushSend_receives now c₁).2 hc)
    · rcases flushSend_state now c₁ with hs | ⟨-, hs | hs⟩ <;> rw [hs]
      · exact hshake
      · rfl
      · rfl

end TcpConnection

end MiniTcp
