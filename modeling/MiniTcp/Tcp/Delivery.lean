import MiniTcp.Tcp.Agreement
import MiniTcp.Tcp.Exchange
import MiniTcp.Tcp.Timers

/-!
# One round of an exchange

Both ends are open and everything that is on the way is lost.  The sending end then
repeats the front of its queue when the retransmission timer has run out, the
receiving end answers, and the answer moves `snd_una`; or nothing is in flight, the
window is closed, and the answer to a probe opens it again once the receiving end was
read.  Every round moves `snd_una` or `snd_nxt`, unless the FIN is taken.
-/

namespace MiniTcp

open Serial Tiling TcpConnection

/-! ## Two more marks of a connection -/

namespace Act

variable {g : Guard} {c c' : TcpConnection} {w a : Effect}

theorem handshake_left (h : Act g c a c') (hst : c.state.handshake = false) :
    c'.state.handshake = false := by
  cases h with
  | synAck | finalAck | abort | finAcked => rfl
  | ack => rwa [processAck_state]
  | receive s deadline hrec _ hs => exact (hs.handshake hrec).1
  | sendFin now s hs => rcases hs with ⟨-, rfl⟩ | ⟨-, rfl⟩ <;> rfl
  | _ => exact hst

/-- The FIN is wanted until it is queued. -/
theorem fin_wanted (h : Act g c a c') (hw : c.pendingClose ∨ finCount w.out ≠ 0) :
    c'.pendingClose ∨ finCount (w + a).out ≠ 0 := by
  rw [Effect.add_out, finCount_append]
  rcases hw with hclose | hfin
  · cases h with
    | @ack seg =>
        obtain ⟨una, queue, wnd, deadline, rto, hack⟩ := processAck_eq c seg
        exact .inl (by rwa [hack])
    | @receive seg payload =>
        obtain ⟨nxt, buf, ooo, hrec⟩ := receive_eq c seg payload
        exact .inl (by rwa [hrec])
    | sendFin now =>
        right
        have hone : finCount (c.queueAndSend now (tcpFin ||| tcpAck) []).2 = 1 :=
          (finCount_queued _).trans (by decide : (hasFlag (tcpFin ||| tcpAck) tcpFin).toNat = 1)
        dsimp only
        omega
    | requestClose => exact .inl rfl
    | _ => exact .inl hclose
  · exact .inr (by omega)

end Act

namespace Track

variable {g : Guard} {t : Track}

theorem handshake_step (t : Track) (e : ConnEvent) (hst : t.conn.state.handshake = false) :
    (t.step e).conn.state.handshake = false :=
  step_invariant (g := {}) (P := fun c _ ↦ c.state.handshake = false)
    (fun _ _ _ _ hst hact ↦ hact.handshake_left hst) (Guard.admits_empty _ _) hst

theorem fin_wanted_step (t : Track) (e : ConnEvent) (h : t.conn.pendingClose ∨ t.finSent) :
    (t.step e).conn.pendingClose ∨ (t.step e).finSent := by
  have hstep := step_invariant (g := {}) (e := e)
    (P := fun c w ↦ c.pendingClose ∨ finCount w.out ≠ 0)
    (fun _ _ _ _ hw hact ↦ hact.fin_wanted hw) (Guard.admits_empty _ _)
    (h.imp_right fun hfin ↦ by simpa [finSent] using hfin)
  exact hstep.imp_right fun hfin ↦ by simpa [finSent] using hfin

end Track

namespace Conversation

variable {c : Conversation} {x : Side} {t u : Track}

/-! ## Two open ends -/

theorem hears_of_mem {m : Emission} (hm : m ∈ (c.party x.other).hist.out) (now : Instant) :
    c.Hears x (.segment now m.parsed m.data) := by
  refine ⟨[m], fun m' hm' ↦ ?_, m, List.mem_singleton_self m, rfl, rfl⟩
  rw [List.mem_singleton.mp hm']
  exact .inr hm

theorem hears_tick (c : Conversation) (x : Side) (now : Instant) : c.Hears x (.tick now) :=
  ⟨[], fun _ hm ↦ (List.not_mem_nil hm).elim, trivial⟩

theorem hears_recv (c : Conversation) (x : Side) (len : ℕ) : c.Hears x (.recv len) :=
  ⟨[], fun _ hm ↦ (List.not_mem_nil hm).elim, trivial⟩

theorem NoWrap.move_step {ce : ConnEvent} (h : c.NoWrap) (ht : c.track x = some t)
    (hacc : (t.conn.step ce).2.accepted = []) : (c.move (x, t.step ce)).NoWrap := by
  intro y
  have hlt := h y
  rcases x.eq_or_eq_other y with rfl | rfl
  · rw [party_of_track ht] at hlt
    rw [party_move_self, Track.iss_step]
    change _ + (t.hist.accepted ++ (t.conn.step ce).2.accepted).length + 2 < _
    rwa [hacc, List.append_nil]
  · rwa [party_move_other]

/-- Both ends are open, and end `x` has left the handshake. -/
structure Alive (c : Conversation) (x : Side) (t u : Track) : Prop where
  reached : c.Reached
  noWrap : c.NoWrap
  sender : c.track x = some t
  receiver : c.track x.other = some u
  past : t.conn.state.handshake = false
  sending : t.conn.state ≠ .closed
  receiving : u.conn.state ≠ .closed

namespace Alive

theorem fits (h : Alive c x t u) : Fits c := h.reached.fits_of_noWrap h.noWrap

theorem sender_live (h : Alive c x t u) : t.Reachable {} := h.fits.live x t h.sender

theorem receiver_live (h : Alive c x t u) : u.Reachable {} := h.fits.live _ u h.receiver

theorem sender_noWrap (h : Alive c x t u) : t.NoWrap := h.fits.noWrap h.noWrap h.sender

theorem flow (h : Alive c x t u) : Flow t u := by
  have hflow := h.fits.flow x
  rwa [party_of_track h.sender, party_of_track h.receiver] at hflow

theorem flow_back (h : Alive c x t u) : Flow u t := by
  have hflow := h.fits.flow x.other
  rwa [Side.other_other, party_of_track h.sender, party_of_track h.receiver] at hflow

theorem queueAt (h : Alive c x t u) : QueueAt t.conn :=
  (h.reached.sentAcks h.noWrap h.sender).queueAt sentAcks_acksSent h.sender_noWrap

theorem aligned (h : Alive c x t u) : Aligned (firsts t.hist.out) u.conn u.hist := by
  have hlined := h.reached.lined h.noWrap x.other
  rwa [Lined, Side.other_other, party_of_track h.sender, party_of_track h.receiver] at hlined

theorem exists_una (h : Alive c x t u) :
    ∃ j, 1 ≤ j ∧ j ≤ u.taken ∧ t.conn.sndUna = shift t.conn.iss j := by
  obtain ⟨j, hj, huna, hpos⟩ := h.flow.una
  exact ⟨j, hpos h.past h.sending, hj, huna⟩

theorem receiver_syn (h : Alive c x t u) : u.hist.syn = true := by
  obtain ⟨j, hpos, hj, -⟩ := h.exists_una
  by_contra hne
  rw [Track.taken, if_neg hne] at hj
  omega

theorem sender_syn (h : Alive c x t u) : t.hist.syn = true := by
  by_contra hne
  rcases (h.sender_live.rcvCount.1 (by simpa using hne)).state with hst | hst
  · have hpast := h.past
    rw [hst] at hpast
    cases hpast
  · exact h.sending hst

theorem toNat_rcvNxt (h : Alive c x t u) : u.conn.rcvNxt.toNat = t.conn.iss.toNat + u.taken :=
  h.flow.toNat_rcvNxt h.sender_live.sndInv h.sender_noWrap h.receiver_syn

theorem toNat_sndNxt (h : Alive c x t u) :
    t.conn.sndNxt.toNat = t.conn.iss.toNat + sentLen t.hist.out :=
  h.sender_live.sndInv.toNat_sndNxt h.sender_noWrap

theorem taken_le (h : Alive c x t u) : u.taken ≤ sentLen t.hist.out :=
  h.flow.taken_le h.sender_live.sndInv

theorem una_le (h : Alive c x t u) :
    t.conn.iss.toNat < t.conn.sndUna.toNat ∧ t.conn.sndUna.toNat ≤ u.conn.rcvNxt.toNat := by
  obtain ⟨j, hpos, hj, huna⟩ := h.exists_una
  have hle := h.taken_le
  have hw : t.conn.iss.toNat + sentLen t.hist.out < 2 ^ 32 := h.sender_noWrap
  rw [h.toNat_rcvNxt, huna, toNat_shift (by omega)]
  omega

theorem sender_step {ce : ConnEvent} (h : Alive c x t u) (hce : c.Hears x ce)
    (hacc : (t.conn.step ce).2.accepted = []) (hopen : (t.step ce).conn.state ≠ .closed) :
    Alive (c.move (x, t.step ce)) x (t.step ce) u where
  reached := h.reached.move (.event h.sender hce)
  noWrap := h.noWrap.move_step h.sender hacc
  sender := track_move_self
  receiver := track_move_other.trans h.receiver
  past := t.handshake_step ce h.past
  sending := hopen
  receiving := h.receiving

theorem receiver_step {ce : ConnEvent} (h : Alive c x t u) (hce : c.Hears x.other ce)
    (hacc : (u.conn.step ce).2.accepted = []) (hopen : (u.step ce).conn.state ≠ .closed) :
    Alive (c.move (x.other, u.step ce)) x t (u.step ce) where
  reached := h.reached.move (.event h.receiver hce)
  noWrap := h.noWrap.move_step h.receiver hacc
  sender := by
    have hother := track_move_other (c := c) (x := x.other) (t := u.step ce)
    rw [Side.other_other] at hother
    exact hother.trans h.sender
  receiver := track_move_self
  past := h.past
  sending := h.sending
  receiving := hopen

/-- As long as our FIN is not taken, acknowledgements are processed. -/
theorem readsAck (h : Alive c x t u) (hfin : u.hist.fin = false) : t.conn.state.readsAck := by
  have hlisten := h.sender_live.handshake.1
  have hpast := h.past
  have hopen := h.sending
  have hacked : t.conn.state.finAcked = false := by
    by_contra hne
    have htaken := h.reached.fin_of_finAcked h.noWrap (x := x)
      (by rw [party_of_track h.sender]; simpa using hne)
    rw [party_of_track h.receiver, hfin] at htaken
    cases htaken
  cases hs : t.conn.state <;>
    simp_all [TcpState.finAcked, TcpState.handshake, TcpState.readsAck]

/-- The SYN is all that the receiving end has sent in SYN_RCVD. -/
theorem rcvNxt_of_synRcvd (h : Alive c x t u) (hst : u.conn.state = .synRcvd) :
    t.conn.rcvNxt = u.conn.sndNxt := by
  have hsnd := h.receiver_live.sndInv
  have hw := h.fits.noWrap h.noWrap h.receiver
  have hlen := hsnd.len
  have hnext := hsnd.toNat_sndNxt hw
  have hrcv := h.flow_back.toNat_rcvNxt hsnd hw h.sender_syn
  have hle := h.flow_back.taken_le hsnd
  have hone : 1 ≤ t.taken := by
    rw [Track.taken, if_pos h.sender_syn]
    omega
  have hfirst := congrArg UInt32.toNat (h.receiver_live.handshake.2 (by rw [hst]; rfl))
  change u.conn.iss.toNat + sentLen u.hist.out < 2 ^ 32 at hw
  rw [add_one, toNat_shift (by omega)] at hfirst
  apply UInt32.toNat_inj.mp
  omega

theorem takesData (h : Alive c x t u) (hfin : u.hist.fin = false) {seg : TcpHeader}
    (hrst : ¬ hasFlag seg.flags tcpRst) (hack : hasFlag seg.flags tcpAck)
    (heq : seg.ackNum = t.conn.rcvNxt) : u.conn.TakesData seg := by
  have hlisten := h.receiver_live.handshake.1
  have hsent := h.receiver_live.rcvCount.2 h.receiver_syn
  have htaken := h.receiver_live.fin_eq h.receiving
  rw [hfin] at htaken
  refine ⟨hrst, ?_⟩
  cases hs : u.conn.state with
  | synRcvd => exact .inr ⟨rfl, hack, heq.trans (h.rcvNxt_of_synRcvd hs)⟩
  | established | finWait1 | finWait2 => exact .inl rfl
  | synSent => exact absurd hs hsent.1
  | listen => exact absurd hs hlisten
  | _ =>
      rw [hs] at htaken
      cases htaken

/-- What the receiving end is given: a segment of the sending end with its latest
acknowledgement. -/
structure Current (t : Track) (m : Emission) : Prop where
  mem : m ∈ t.hist.out
  ack : hasFlag m.flags tcpAck
  rst : ¬ hasFlag m.flags tcpRst
  syn : ¬ hasFlag m.flags tcpSyn
  ackNum : m.packet.hdr.ackNum = t.conn.rcvNxt
  occupies : m.data ≠ [] ∨ hasFlag m.flags tcpFin

section Receive

variable {m : Emission} {now : Instant}

theorem receives (h : Alive c x t u) (hfin : u.hist.fin = false) (hm : Current t m)
    (now : Instant) : Alive (c.move (x.other, u.step (.segment now m.parsed m.data))) x t
      (u.step (.segment now m.parsed m.data)) := by
  have hdata : u.conn.TakesData m.parsed := h.takesData hfin hm.rst hm.ack hm.ackNum
  obtain ⟨-, -, -, -, -, hopen⟩ := processSegment_takes now hdata hm.occupies
  refine h.receiver_step (hears_of_mem ?_ now) rfl hopen
  rw [Side.other_other, party_of_track h.sender]
  exact hm.mem

/-- All of a segment that does not start ahead of `rcv_nxt` is taken afterwards. -/
theorem end_le (h : Alive c x t u) (hfin : u.hist.fin = false) (hm : Current t m)
    (hle : m.seq.toNat ≤ u.conn.rcvNxt.toNat) (now : Instant) :
    m.seq.toNat + m.seqLen ≤
      (u.step (.segment now m.parsed m.data)).conn.rcvNxt.toNat := by
  have hdata : u.conn.TakesData m.parsed := h.takesData hfin hm.rst hm.ack hm.ackNum
  have hnext := (h.receives hfin hm now).toNat_rcvNxt
  have hold := h.toNat_rcvNxt
  rcases Nat.lt_or_eq_of_le hle with hlt | heq
  · have hpassed := h.reached.end_le h.noWrap (x := x) (m := m)
      (by rw [party_of_track h.receiver]; exact h.receiver_syn)
      (by rw [party_of_track h.sender]; exact hm.mem)
      (by rw [party_of_track h.receiver, UInt32.lt_iff_toNat_lt]; exact hlt)
    rw [party_of_track h.receiver] at hpassed
    have hmono := u.taken_step (.segment now m.parsed m.data)
    omega
  · have heq : m.parsed.seqNum = u.conn.rcvNxt := UInt32.toNat_inj.mp heq
    obtain ⟨hlen, hflag⟩ := processSegment_takes_next now hdata hm.occupies heq
    have hsyn : (u.step (.segment now m.parsed m.data)).hist.syn = true :=
      (h.receives hfin hm now).receiver_syn
    have hlast : (u.step (.segment now m.parsed m.data)).hist.fin = hasFlag m.flags tcpFin := by
      change (u.hist.fin || (u.conn.processSegment now m.parsed m.data).fin) = _
      rw [hfin, Bool.false_or, hflag]
      rfl
    have hreturned : (u.step (.segment now m.parsed m.data)).received.length =
        u.hist.returned.length +
          (u.conn.processSegment now m.parsed m.data).conn.recvBuffer.length := by
      change ((u.hist.returned ++ []) ++ _).length = _
      rw [List.append_nil, List.length_append]
      rfl
    have hbefore : u.received.length = u.hist.returned.length + u.conn.recvBuffer.length :=
      List.length_append
    rw [Track.taken, if_pos hsyn, hlast, hreturned] at hnext
    rw [Track.taken, if_pos h.receiver_syn, hfin, hbefore, Bool.toNat_false] at hold
    have hseqLen : m.seqLen = m.data.length + (hasFlag m.flags tcpFin).toNat := by
      rw [Emission.seqLen, seqLen, Bool.eq_false_of_not_eq_true hm.syn, Bool.toNat_false,
        Nat.add_zero]
    omega

theorem answers (h : Alive c x t u) (hfin : u.hist.fin = false) (hm : Current t m)
    (now : Instant) : ∃ m' ∈ (u.conn.step (.segment now m.parsed m.data)).2.out,
      m'.flags = tcpAck ∧
      m'.packet.hdr.ackNum = (u.step (.segment now m.parsed m.data)).conn.rcvNxt ∧
      m'.packet.hdr.window =
        (u.step (.segment now m.parsed m.data)).conn.advertiseWindow :=
  processSegment_answers now (h.takesData hfin hm.rst hm.ack hm.ackNum) hm.occupies

end Receive

/-- The newest acknowledgement arrives. -/
theorem acknowledged (h : Alive c x t u) (hfin : u.hist.fin = false) {m : Emission}
    (hm : m ∈ u.hist.out) (hflags : m.flags = tcpAck)
    (hnum : m.packet.hdr.ackNum = u.conn.rcvNxt) (now : Instant) :
    Alive (c.move (x, t.step (.segment now m.parsed m.data))) x
        (t.step (.segment now m.parsed m.data)) u ∧
      (t.step (.segment now m.parsed m.data)).conn.sndUna = u.conn.rcvNxt ∧
      ∀ v ∈ (t.step (.segment now m.parsed m.data)).conn.retransmitQueue,
        v ∈ t.conn.retransmitQueue ∨ v.retryCount = 0 := by
  have hack : hasFlag m.parsed.flags tcpAck := by
    change hasFlag m.flags tcpAck
    rw [hflags]
    decide
  have hrst : ¬ hasFlag m.parsed.flags tcpRst := by
    change ¬ hasFlag m.flags tcpRst
    rw [hflags]
    decide
  obtain ⟨huna, hqueue, hclosed, -⟩ :=
    processSegment_acks now m.data (h.readsAck hfin) hrst
  refine ⟨h.sender_step (hears_of_mem ?_ now) rfl fun hc ↦ ?_, huna.trans ?_, hqueue⟩
  · rw [party_of_track h.receiver]
    exact hm
  · obtain ⟨hlast, hall⟩ := hclosed hc
    have htaken := h.flow.fin_of_acknowledges h.sender_live.sndInv h.sender_noWrap
      (by rw [hlast]; rfl) hm (by simp [Track.acknowledges, hack, hall])
    rw [hfin] at htaken
    cases htaken
  · have hle := h.una_le.2
    rw [processAck_sndUna hack, show m.parsed.ackNum = u.conn.rcvNxt from hnum]
    split_ifs with hgt
    · rfl
    · rw [gt_iff_lt, UInt32.lt_iff_toNat_lt] at hgt
      exact UInt32.toNat_inj.mp (by omega)

/-- The front of the queue carries data or the FIN, and starts at or before `snd_una`. -/
theorem front_spec (h : Alive c x t u) {front : UnackedSegment} {rest : List UnackedSegment}
    (hq : t.conn.retransmitQueue = front :: rest) :
    front.seq.toNat ≤ t.conn.sndUna.toNat ∧
      t.conn.sndUna.toNat < front.seq.toNat + front.seqLen ∧ ¬ hasFlag front.flags tcpSyn ∧
      hasFlag front.flags tcpAck ∧ ¬ hasFlag front.flags tcpRst ∧
      (front.data ≠ [] ∨ hasFlag front.flags tcpFin) := by
  have hmem : front ∈ t.conn.retransmitQueue := by
    rw [hq]
    exact List.mem_cons_self
  have hsnd := h.sender_live.sndInv
  have hreaches := h.queueAt.reaches front hmem
  obtain ⟨a, ha, htiles⟩ := h.queueAt.tiles
  rw [hq] at htiles
  have hfirst : front.seq.toNat = a := htiles.1
  have hpos : 0 < front.seqLen := htiles.2.1
  have hsyn : ¬ hasFlag front.flags tcpSyn := by
    intro hsyn
    have hf := (hsnd.queue front hmem).1
    have hone : front.seqLen = 1 := (hf.seqLen_eq (hsnd.len ▸ h.sender_noWrap)).2 (.inl hsyn)
    have hseq := congrArg UInt32.toNat (hf.syn hsyn).1
    have huna := h.una_le.1
    omega
  refine ⟨by omega, hreaches, hsyn, ?_⟩
  rcases flags_of_not_syn (h.sender_live.wire.1 front hmem).1 hsyn with hflags | hflags
  · rw [hflags]
    refine ⟨by decide, by decide, .inl fun hnil ↦ ?_⟩
    rw [UnackedSegment.seqLen, hflags, hnil] at hpos
    exact absurd hpos (by decide)
  · rw [hflags]
    exact ⟨by decide, by decide, .inr (by decide)⟩

/-- The retransmission timer has run out. -/
theorem resends (h : Alive c x t u) (hfin : u.hist.fin = false) {front : UnackedSegment}
    {rest : List UnackedSegment} {now : Instant}
    (hq : t.conn.retransmitQueue = front :: rest) (hdue : front.rto ≤ now - front.sentAt)
    (hleft : front.retryCount < maxRetries) :
    Alive (c.move (x, t.step (.tick now))) x (t.step (.tick now)) u ∧
      (t.step (.tick now)).conn.sndUna = t.conn.sndUna ∧
      (∀ v ∈ (t.step (.tick now)).conn.retransmitQueue,
        v = front.resent now ∨ v ∈ rest ∨ v.retryCount = 0) ∧
      ∃ m ∈ (t.conn.step (.tick now)).2.out, m.seq = front.seq ∧ m.seqLen = front.seqLen ∧
        Current (t.step (.tick now)) m := by
  have hreads := h.readsAck hfin
  have htw : t.conn.state ≠ .timeWait := by
    intro htw
    rw [htw] at hreads
    cases hreads
  obtain ⟨-, -, hsyn, hack, hrst, hocc⟩ := h.front_spec hq
  obtain ⟨hmem, c₂, hstate, huna, hin, hqueue, htick⟩ := tick_resends htw hq hdue hleft
  refine ⟨h.sender_step (hears_tick c x now) rfl ?_, ?_, fun v hv ↦ ?_,
    _, hmem, rfl, rfl, List.mem_append_right _ hmem, hack, hrst, hsyn, ?_, hocc⟩
  · change (t.conn.tick now).1.state ≠ .closed
    rw [htick]
    exact fun hc ↦ h.sending (hstate.symm.trans ((flushSend_receives now c₂).2 hc))
  · change (t.conn.tick now).1.sndUna = _
    rw [htick, flushSend_sndUna, huna]
  · change v ∈ (t.conn.tick now).1.retransmitQueue at hv
    rw [htick] at hv
    rcases flushSend_entries now c₂ v hv with hv | hzero
    · rw [hqueue] at hv
      exact (List.mem_cons.mp hv).imp_right .inl
    · exact .inr (.inr hzero)
  · change (if hasFlag front.flags tcpAck then t.conn.rcvNxt else 0) = (t.conn.tick now).1.rcvNxt
    rw [if_pos hack, htick]
    exact (congrArg Inbound.rcvNxt ((flushSend_inbound now c₂).trans hin)).symm

/-- Nothing is in flight. -/
theorem idle (h : Alive c x t u) (hfin : u.hist.fin = false)
    (hq : t.conn.retransmitQueue = []) :
    t.conn.sndUna = t.conn.sndNxt ∧ u.conn.rcvNxt = t.conn.sndNxt ∧ t.conn.state.sends ∧
      u.received = sentBytes t.hist.out := by
  have hsnd := h.sender_live.sndInv
  have huna : t.conn.sndUna = t.conn.sndNxt := by
    by_contra hne
    exact h.queueAt.ne_nil hne hq
  have hle := h.una_le.2
  have hrcv := h.toNat_rcvNxt
  have hnext := h.toNat_sndNxt
  have htaken := h.taken_le
  rw [huna] at hle
  have hall : sentLen t.hist.out = u.taken := by omega
  have hno : finCount t.hist.out ≠ 1 := by
    intro hone
    have hyes := h.flow.fin_of_taken hsnd hone hall.le
    rw [hfin] at hyes
    cases hyes
  have hzero : finCount t.hist.out = 0 := by
    have hone := hsnd.fin_le
    omega
  refine ⟨huna, UInt32.toNat_inj.mp (by omega), ?_, ?_⟩
  · have hreads := h.readsAck hfin
    have hsent := h.sender_live.finSent_eq h.sending
    rw [Track.finSent, hzero] at hsent
    cases hs : t.conn.state <;>
      simp_all [TcpState.readsAck, TcpState.finSent, TcpState.sends]
  · refine (h.flow.receiving h.receiver_syn).stream.eq_of_length ?_
    have hlen := hsnd.len
    rw [Track.taken, if_pos h.receiver_syn, hfin, Bool.toNat_false] at hall
    change u.received.length = _
    omega

/-- What is held out of order starts behind `snd_nxt`, so there is nothing. -/
theorem ooo_of_idle (h : Alive c x t u) (hfin : u.hist.fin = false)
    (hq : t.conn.retransmitQueue = []) : u.conn.oooBuffer = ∅ := by
  have hnxt := congrArg UInt32.toNat (h.idle hfin hq).2.1
  refine AssocMap.eq_empty_of_lookup fun s ↦ ?_
  cases hs : u.conn.oooBuffer.lookup s with
  | none => rfl
  | some d =>
      obtain ⟨hd, hle, m, hm, hseq, -, hlen⟩ := (h.aligned.held h.receiver_syn hfin).1.ooo s d hs
      have hpos := List.length_pos_of_ne_nil hd
      have hbound := ((h.sender_live.segmentTiles h.sender_noWrap).bounds hm).2.2
      rw [hseq] at hbound
      omega

/-- The stream moves on when a flush takes bytes out of `send_pending`. -/
theorem next_lt {c' : Conversation} {u' : Track} {ce : ConnEvent} (h : Alive c x t u)
    (h' : Alive c' x (t.step ce) u') (hst : t.conn.state.sends)
    (hacc : (t.conn.step ce).2.accepted = [])
    (hlt : (t.step ce).conn.sendPending.length < t.conn.sendPending.length) :
    t.conn.sndNxt.toNat < (t.step ce).conn.sndNxt.toNat := by
  have hsnd := h.sender_live.sndInv
  have hsnd' := h'.sender_live.sndInv
  have hlen := congrArg List.length hsnd.pending
  have hlen' := congrArg List.length hsnd'.pending
  have hzero := hsnd.finCount_of_sends hst
  have hnext := hsnd.len
  have hnext' := hsnd'.len
  have hsame : (t.step ce).hist.accepted = t.hist.accepted := by
    change t.hist.accepted ++ (t.conn.step ce).2.accepted = _
    rw [hacc, List.append_nil]
  rw [hsame] at hlen'
  rw [List.length_append] at hlen hlen'
  rw [h.toNat_sndNxt, h'.toNat_sndNxt, Track.iss_step]
  omega

theorem next_le {c' : Conversation} {u' : Track} {ce : ConnEvent} (h : Alive c x t u)
    (h' : Alive c' x (t.step ce) u') :
    t.conn.sndNxt.toNat ≤ (t.step ce).conn.sndNxt.toNat := by
  have hgrow : sentLen (t.step ce).hist.out =
      sentLen t.hist.out + sentLen (t.conn.step ce).2.out := sentLen_append ..
  rw [h.toNat_sndNxt, h'.toNat_sndNxt, Track.iss_step, hgrow]
  omega

/-- A tick of an idle end with a closed window. -/
theorem probes (h : Alive c x t u) (hst : t.conn.state.sends)
    (hq : t.conn.retransmitQueue = []) (hwnd : t.conn.sndWnd = 0)
    (hne : t.conn.sendPending ≠ []) (now : Instant) :
    Alive (c.move (x, t.step (.tick now))) x (t.step (.tick now)) u ∧
      (∃ d rto, (t.step (.tick now)).conn =
        { t.conn with probeDeadline := some d, probeRto := rto }) ∧
      ∀ d, t.conn.probeDeadline = some d → d ≤ now →
        ∃ m ∈ (t.conn.step (.tick now)).2.out, m.seq = t.conn.sndUna - 1 ∧
          Current (t.step (.tick now)) m := by
  obtain ⟨⟨d, rto, htick⟩, hprobe⟩ := tick_of_blocked now hst hq hwnd hne
  have hconn : (t.step (.tick now)).conn =
      { t.conn with probeDeadline := some d, probeRto := rto } := htick
  refine ⟨h.sender_step (hears_tick c x now) rfl ?_, ⟨d, rto, hconn⟩, fun d' hd' hle ↦ ?_⟩
  · rw [hconn]
    exact h.sending
  · have hmem := hprobe d' hd' hle
    refine ⟨_, hmem, rfl, List.mem_append_right _ hmem, ?_, ?_, ?_, ?_,
      .inl (List.cons_ne_nil _ _)⟩
    · exact (by decide : hasFlag tcpAck tcpAck)
    · exact (by decide : ¬ hasFlag tcpAck tcpRst)
    · exact (by decide : ¬ hasFlag tcpAck tcpSyn)
    · rw [hconn]
      rfl

/-- The answer to a probe tells the window. -/
theorem probed (h : Alive c x t u) (hfin : u.hist.fin = false)
    (hq : t.conn.retransmitQueue = []) {m : Emission} (hm : Current t m)
    (hseq : m.seq = t.conn.sndUna - 1) (hwnd : u.conn.advertiseWindow ≠ 0) (now : Instant) :
    (u.step (.segment now m.parsed m.data)).hist.fin = false ∧
      (u.step (.segment now m.parsed m.data)).conn.rcvNxt = t.conn.sndNxt ∧
      (u.step (.segment now m.parsed m.data)).conn.advertiseWindow ≠ 0 := by
  obtain ⟨huna, hnxt, hst, -⟩ := h.idle hfin hq
  have hdata : u.conn.TakesData m.parsed := h.takesData hfin hm.rst hm.ack hm.ackNum
  have hlt : m.parsed.seqNum < u.conn.rcvNxt := by
    have hpos := h.una_le.1
    rw [hnxt, ← huna, show m.parsed.seqNum = t.conn.sndUna - 1 from hseq]
    rw [UInt32.lt_iff_toNat_lt, UInt32.toNat_sub_of_le _ _ (UInt32.le_iff_toNat_le.mpr _)]
    · exact Nat.sub_lt (by omega) (by decide)
    · exact Nat.one_le_of_lt hpos
  have hin : (u.step (.segment now m.parsed m.data)).conn.inbound = u.conn.inbound :=
    processSegment_ignores now hdata hm.occupies hlt
  refine ⟨?_, (congrArg Inbound.rcvNxt hin).trans hnxt, ?_⟩
  · by_contra hyes
    have hone := (h.receives hfin hm now).flow.fin (by simpa using hyes)
    have hzero := h.sender_live.sndInv.finCount_of_sends hst
    omega
  · rwa [advertiseWindow_congr hin]

end Alive

end Conversation

end MiniTcp
