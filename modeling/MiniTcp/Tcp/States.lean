import MiniTcp.Tcp.Flush
import MiniTcp.Tcp.Receiver
import MiniTcp.Tcp.Sender

/-!
# What the connection state records

Outside CLOSED and the handshake, the state of a connection says exactly three
things: whether our FIN was queued, whether it was acknowledged since, and whether
the peer's FIN was consumed.  The transitions are spread over `process_segment`,
`flush_send`, `close` and `tick`; each of the three marks is followed on its own.
-/

namespace MiniTcp

def TcpState.finAcked : TcpState → Bool
  | .finWait2 | .timeWait => true
  | _ => false

/-! ## The acknowledgement of our FIN -/

namespace TcpConnection

variable {c : TcpConnection} {seg : TcpHeader} {payload : Bytes} {now : Instant}

theorem flushSend_state (now : Instant) (c : TcpConnection) :
    (c.flushSend now).1.state = c.state ∨ c.state.sends ∧
      ((c.flushSend now).1.state = .finWait1 ∨ (c.flushSend now).1.state = .lastAck) := by
  cases hst : c.state.sends with
  | false =>
      rw [flushSend_of_not_sends now hst]
      exact .inl rfl
  | true =>
      obtain ⟨c₂, hc₂, hstate, -⟩ := flushLoop_done now c
      rw [flushSend_of_sends now hst]
      dsimp only
      rw [hc₂]
      unfold sendDeferredFin
      split_ifs
      · rcases sends_iff.mp (hstate ▸ hst : c₂.state.sends) with hs | hs <;> rw [hs]
        · exact .inr ⟨rfl, .inl rfl⟩
        · exact .inr ⟨rfl, .inr rfl⟩
      · exact .inl hstate

theorem flushSend_finAcked (now : Instant) (c : TcpConnection) :
    (c.flushSend now).1.state.finAcked = c.state.finAcked := by
  rcases flushSend_state now c with hs | ⟨hst, hs | hs⟩
  · rw [hs]
  all_goals
    rw [hs]
    rcases sends_iff.mp hst with hs | hs <;> rw [hs] <;> rfl

/-- The mark after an event: it was there, or the segment acknowledges our FIN. -/
def AckMark (c : TcpConnection) (e : ConnEvent) (s : TcpState) : Prop :=
  s = .closed ∨ s.finAcked =
    (c.state.finAcked || (c.state.finSent && e.header.any (Track.acknowledges c.sndNxt)))

theorem finWait1Segment_mark (hst : c.state = .finWait1) :
    (c.finWait1Segment now seg payload).conn.state.finAcked =
      Track.acknowledges c.sndNxt seg := by
  have hstate : ((c.processAck seg).receiveDataAndMaybeFin seg payload).conn.state = .finWait1 := by
    rw [receive_state, processAck_state, hst]
  unfold finWait1Segment
  dsimp only
  rw [processAck_sndNxt, ← Track.acknowledges]
  generalize (c.processAck seg).receiveDataAndMaybeFin seg payload = r at hstate ⊢
  cases Track.acknowledges c.sndNxt seg <;> cases r.fin <;>
    simp [enterTimeWait, TcpState.finAcked, hstate]

theorem finWait2Segment_mark (hst : c.state = .finWait2) :
    (c.finWait2Segment now seg payload).conn.state.finAcked = true := by
  unfold finWait2Segment
  dsimp only
  split_ifs
  · rfl
  · rw [receive_state, processAck_state, hst]
    rfl

theorem closingSegment_mark (hst : c.state = .closing) :
    (c.closingSegment now seg).conn.state.finAcked = Track.acknowledges c.sndNxt seg := by
  unfold closingSegment
  dsimp only
  rw [processAck_sndNxt, ← Track.acknowledges]
  cases Track.acknowledges c.sndNxt seg <;>
    simp [enterTimeWait, TcpState.finAcked, hst]

theorem lastAckSegment_mark (seg : TcpHeader) (hst : c.state = .lastAck) :
    (c.lastAckSegment seg).conn.state = .closed ∨
      (c.lastAckSegment seg).conn.state = .lastAck ∧
        Track.acknowledges c.sndNxt seg = false := by
  unfold lastAckSegment
  dsimp only
  rw [processAck_sndNxt, ← Track.acknowledges]
  cases Track.acknowledges c.sndNxt seg <;> simp [hst]

theorem processSegment_finAcked_of_sends (hst : c.state.sends)
    (hrst : ¬ hasFlag seg.flags tcpRst) :
    (c.processSegment now seg payload).conn.state.finAcked = false := by
  unfold processSegment
  rw [if_neg (by simp [hrst])]
  rcases sends_iff.mp hst with hs | hs <;> rw [hs]
  · dsimp only
    unfold establishedSegment
    dsimp only
    rw [flushSend_finAcked]
    split_ifs
    · rfl
    · rw [receive_state, processAck_state, hs]
      rfl
  · exact (flushSend_finAcked now _).trans (by rw [processAck_state, hs]; rfl)

theorem processSegment_handshake (now : Instant) (seg : TcpHeader) (payload : Bytes)
    (hst : c.state.handshake) :
    (c.processSegment now seg payload).conn.state = .closed ∨
      (c.processSegment now seg payload).conn.state = c.state ∨
      Track.acknowledges c.sndNxt seg ∧
        ((c.processSegment now seg payload).conn.state = .established ∨
          (c.processSegment now seg payload).conn.state = .closeWait) := by
  unfold processSegment
  split_ifs
  · exact .inl rfl
  · cases hs : c.state with
    | synSent =>
        simp only [synSentSegment]
        split_ifs with h
        · rw [Bool.and_assoc, Bool.and_eq_true] at h
          exact .inr (.inr ⟨h.2, .inl rfl⟩)
        · exact .inr (.inl hs)
    | synRcvd =>
        simp only [synRcvdSegment]
        split_ifs with h
        · exact .inr (.inr ⟨h, .inr rfl⟩)
        · exact .inr (.inr ⟨h, .inl (receive_state _ _ _)⟩)
        · exact .inr (.inr ⟨h, .inl rfl⟩)
        · exact .inr (.inl hs)
    | _ => simp [hs, TcpState.handshake] at hst

theorem processSegment_mark (now : Instant) (seg : TcpHeader) (payload : Bytes)
    (c : TcpConnection) :
    c.AckMark (.segment now seg payload) (c.processSegment now seg payload).conn.state := by
  unfold AckMark
  change _ ∨ _ = (_ || (_ && Track.acknowledges c.sndNxt seg))
  by_cases hrst : hasFlag seg.flags tcpRst ∧ c.state ≠ .closed ∧ c.state ≠ .listen
  · exact .inl (by rw [processSegment, if_pos hrst])
  have hclosed := processSegment_handshake now seg payload (c := c)
  cases hst : c.state with
  | established | closeWait =>
      rw [processSegment_finAcked_of_sends (by rw [hst]; rfl) (by simpa [hst] using hrst)]
      exact .inr rfl
  | synSent | synRcvd =>
      rcases hclosed (by rw [hst]; rfl) with hs | hs | ⟨-, hs | hs⟩
      · exact .inl hs
      · exact .inr (by rw [hs, hst]; rfl)
      · exact .inr (by rw [hs]; rfl)
      · exact .inr (by rw [hs]; rfl)
  | listen | closed =>
      rw [processSegment, if_neg hrst, hst]
      exact .inr (by rw [hst]; rfl)
  | finWait1 =>
      rw [processSegment, if_neg hrst, hst]
      exact .inr (finWait1Segment_mark hst)
  | finWait2 =>
      rw [processSegment, if_neg hrst, hst]
      exact .inr (finWait2Segment_mark hst)
  | closing =>
      rw [processSegment, if_neg hrst, hst]
      exact .inr (closingSegment_mark hst)
  | lastAck =>
      rw [processSegment, if_neg hrst, hst]
      rcases lastAckSegment_mark seg hst with hs | ⟨hs, hack⟩
      · exact .inl hs
      · exact .inr (by rw [hs, hack]; rfl)
  | timeWait =>
      rw [processSegment, if_neg hrst, hst]
      simp only [timeWaitSegment]
      split_ifs <;> exact .inr (by rw [hst]; rfl)

theorem step_mark (c : TcpConnection) (e : ConnEvent) : c.AckMark e (c.step e).1.state := by
  have hflush (c₁ : TcpConnection) (now : Instant) (hs : c₁.state = c.state) :
      (c₁.flushSend now).1.state.finAcked = (c.state.finAcked || (c.state.finSent && false)) := by
    rw [flushSend_finAcked, hs, Bool.and_false, Bool.or_false]
  have hsame : c.state.finAcked = (c.state.finAcked || (c.state.finSent && false)) := by
    rw [Bool.and_false, Bool.or_false]
  cases e with
  | segment now seg payload => exact processSegment_mark now seg payload c
  | tick now =>
      rcases tick_cases now c with ⟨hs | ⟨-, hs⟩, -⟩ | ⟨c₂, hs, -, -, heq⟩
      · exact .inl hs
      · exact .inr (by rw [step, hs]; exact hsame)
      · exact .inr (by rw [step, heq]; exact hflush c₂ now hs)
  | send now data => exact .inr (hflush _ now rfl)
  | close now =>
      simp only [step, close]
      split
      case h_1 | h_2 => exact .inr (hflush _ now rfl)
      case h_3 | h_4 => exact .inl rfl
      case h_5 => exact .inr hsame
  | recv len | setRecvCap cap | setSendCap cap => exact .inr hsame

end TcpConnection

/-! ## The peer's FIN, and the handshake -/

namespace Act

variable {g : Guard} {c c' : TcpConnection} {a : Effect} {w : Effect}

theorem closed_absorbs (hact : Act g c a c') (h : c.state = .closed) : c'.state = .closed := by
  rcases hact.outbound_cases with ⟨flags, data, hq⟩ | hq
  · have hst := hq.sends
    rw [h] at hst
    cases hst
  · exact hq.state.resolve_right fun hne ↦ hne.1 h

theorem not_synRcvd (hact : Act g c a c') (h : c.state ≠ .synRcvd) : c'.state ≠ .synRcvd := by
  cases hact with
  | synAck | finalAck | abort | finAcked => exact TcpState.noConfusion
  | ack =>
      rw [TcpConnection.processAck_state]
      exact h
  | receive s deadline hst hg hs =>
      intro (hs' : s = .synRcvd)
      have hno := (hs.handshake hst).1
      rw [hs'] at hno
      cases hno
  | sendFin now s hst =>
      rcases hst with ⟨-, rfl⟩ | ⟨-, rfl⟩ <;> exact TcpState.noConfusion
  | _ => exact h

theorem fin_state (hact : Act g c a c') (h : c.state ≠ .closed → w.fin = c.state.finTaken)
    (hopen : c'.state ≠ .closed) : (w + a).fin = c'.state.finTaken := by
  have h := h fun hc ↦ hopen (hact.closed_absorbs hc)
  rw [Effect.add_fin, h]
  cases hact with
  | @receive seg payload s deadline hrec _ hs =>
      have hno : c.state.finTaken = false := by
        cases hc : c.state <;> simp_all [TcpState.receives, TcpState.finTaken]
      rw [hno, Bool.false_or]
      exact (hs.finTaken hrec).symm
  | synAck hst | finalAck hst | finAcked _ hst => rw [hst]; rfl
  | sendFin now s hst => rcases hst with ⟨hst, rfl⟩ | ⟨hst, rfl⟩ <;> rw [hst] <;> rfl
  | abort => exact absurd rfl hopen
  | ack => rw [TcpConnection.processAck_state]; exact Bool.or_false _
  | _ => exact Bool.or_false _

theorem handshake_sndNxt (hact : Act g c a c')
    (h : c.state ≠ .listen ∧ (c.state.handshake → c.sndNxt = c.iss + 1)) :
    c'.state ≠ .listen ∧ (c'.state.handshake → c'.sndNxt = c'.iss + 1) := by
  have past {s : TcpState} {P : Prop} (hl : decide (s = .listen) = false)
      (hno : s.handshake = false) : s ≠ .listen ∧ (s.handshake → P) :=
    ⟨of_decide_eq_false hl, fun hh ↦ absurd (hno.symm.trans hh) Bool.false_ne_true⟩
  cases hact with
  | @ack seg =>
      obtain ⟨una, queue, wnd, deadline, rto, hack⟩ := TcpConnection.processAck_eq c seg
      rw [hack]
      exact h
  | @receive seg payload s deadline hrec _ hs =>
      obtain ⟨hno, hl⟩ := hs.handshake hrec
      exact past (decide_eq_false hl) hno
  | chunk now hst =>
      refine ⟨h.1, fun hh ↦ ?_⟩
      change c.state.handshake = true at hh
      rcases TcpConnection.sends_iff.mp hst with hs | hs <;> simp [hs, TcpState.handshake] at hh
  | sendFin now s hst => rcases hst with ⟨-, rfl⟩ | ⟨-, rfl⟩ <;> exact past rfl rfl
  | synAck | finalAck | abort | finAcked => exact past rfl rfl
  | _ => exact h

end Act

/-! ## After our FIN -/

/-- The sending half once the FIN was queued: `snd_nxt` is `nxt`, and all data that
can still be sent was sent before, in `old`. -/
structure FinDone (nxt : UInt32) (old : List Emission) (c : TcpConnection) (w : Effect) :
    Prop where
  inv : SndInv c w
  fin : finCount w.out ≠ 0
  next : c.sndNxt = nxt
  queue : ∀ u ∈ c.retransmitQueue, u.data ≠ [] →
    ∃ m ∈ old, m.seq = u.seq ∧ m.data = u.data
  out : ∀ m ∈ w.out, m.data ≠ [] → ∃ m' ∈ old, m'.seq = m.seq ∧ m'.data = m.data

theorem FinDone.step {g : Guard} {c c' : TcpConnection} {w a : Effect} {nxt : UInt32}
    {old : List Emission} (h : FinDone nxt old c w) (hact : Act g c a c') :
    FinDone nxt old c' (w + a) := by
  have hsends (hst : c.state.sends) : False := h.fin (h.inv.finCount_of_sends hst)
  rcases hact.outbound_cases with ⟨flags, data, hq⟩ | hq
  · exact (hsends hq.sends).elim
  · refine ⟨h.inv.step hact, ?_, hq.next.trans h.next, fun u hu hne ↦ ?_, fun m hm hne ↦ ?_⟩
    · have hfin := h.fin
      rw [Effect.add_out, finCount_append]
      omega
    · obtain ⟨v, hv, -, hseq, hdata⟩ := hq.queue u hu
      rw [← hseq, ← hdata]
      exact h.queue v hv (hdata ▸ hne)
    · rcases List.mem_append.mp hm with hm | hm
      · exact h.out m hm hne
      · rcases (hq.out m hm).2 with ⟨-, hst, -⟩ | ⟨-, ⟨u, hu, -, hseq, hdata⟩ | ⟨-, hdata⟩⟩
        · exact (hsends hst).elim
        · rw [hseq, hdata]
          exact h.queue u hu (hdata ▸ hne)
        · exact absurd hdata hne

/-! ## Every run -/

theorem TcpConnection.step_handshake (c : TcpConnection) (e : ConnEvent)
    (hst : c.state.handshake) (hopen : (c.step e).1.state ≠ .closed)
    (hleft : (c.step e).1.state.handshake = false) :
    ∃ seg, e.header = some seg ∧ Track.acknowledges c.sndNxt seg := by
  have hno : c.state.sends = false := by
    cases hc : c.state <;> simp_all [TcpState.handshake, TcpState.sends]
  have hsame (hs : (c.step e).1.state = c.state) : False := by
    rw [hs, hst] at hleft
    cases hleft
  cases e with
  | segment now seg payload =>
      rcases processSegment_handshake now seg payload hst with hs | hs | ⟨hack, -⟩
      · exact absurd hs hopen
      · exact (hsame hs).elim
      · exact ⟨seg, rfl, hack⟩
  | tick now =>
      refine (hsame ?_).elim
      rcases tick_cases now c with ⟨hs | ⟨-, hs⟩, -⟩ | ⟨c₂, hs, -, -, heq⟩
      · exact absurd hs hopen
      · exact congrArg TcpConnection.state hs
      · rw [step, heq, flushSend_of_not_sends now (hs ▸ hno)]
        exact hs
  | send now data =>
      exact (hsame ((flushSend_state now _).resolve_right fun hs ↦
        Bool.false_ne_true (hno.symm.trans hs.1))).elim
  | close now =>
      cases hs : c.state with
      | synSent => exact absurd (by simp [step, close, hs]) hopen
      | synRcvd => exact (hsame (by simp [step, close, hs])).elim
      | _ => simp [hs, TcpState.handshake] at hst
  | recv len | setRecvCap cap | setSendCap cap => exact (hsame rfl).elim

namespace Track

variable {g : Guard} {t : Track}

theorem Reachable.step (h : t.Reachable g) {e : ConnEvent} (he : g.Admits t.conn e) :
    (t.step e).Reachable g :=
  Run.Reaches.tail e h he

theorem Reachable.finSent_eq (h : t.Reachable g) (hopen : t.conn.state ≠ .closed) :
    t.finSent = t.conn.state.finSent := by
  unfold finSent
  cases hf : t.conn.state.finSent with
  | true => rw [h.sndInv.finSent hf]; rfl
  | false => rw [h.sndInv.unfinished hf hopen]; rfl

theorem Reachable.fin_eq (h : t.Reachable g) (hopen : t.conn.state ≠ .closed) :
    t.hist.fin = t.conn.state.finTaken :=
  h.invariant (P := fun c w ↦ c.state ≠ .closed → w.fin = c.state.finTaken)
    (by rintro s (⟨now, iss, key, rfl⟩ | ⟨now, iss, key, seg, rfl⟩) _ <;> rfl)
    (fun _ _ _ _ hinv hact ↦ hact.fin_state hinv) hopen

theorem Reachable.handshake (h : t.Reachable g) :
    t.conn.state ≠ .listen ∧ (t.conn.state.handshake → t.conn.sndNxt = t.conn.iss + 1) :=
  h.invariant
    (P := fun c _ ↦ c.state ≠ .listen ∧ (c.state.handshake → c.sndNxt = c.iss + 1))
    (by rintro s (⟨now, iss, key, rfl⟩ | ⟨now, iss, key, seg, rfl⟩) <;> exact ⟨nofun, fun _ ↦ rfl⟩)
    (fun _ _ _ _ hinv hact ↦ hact.handshake_sndNxt hinv)

theorem closed_step (t : Track) (e : ConnEvent) (h : t.conn.state = .closed) :
    (t.step e).conn.state = .closed :=
  step_invariant (g := {}) (P := fun c _ ↦ c.state = .closed)
    (fun _ _ _ _ hc hact ↦ hact.closed_absorbs hc) (Guard.admits_empty _ _) h

theorem iss_step (t : Track) (e : ConnEvent) : (t.step e).conn.iss = t.conn.iss :=
  step_invariant (g := {}) (P := fun c _ ↦ c.iss = t.conn.iss)
    (fun _ _ _ _ hc hact ↦ hact.iss_eq.trans hc) (Guard.admits_empty _ _) rfl

theorem Reachable.finAcked_eq (h : t.Reachable g) :
    t.conn.state ≠ .closed → t.finAcked = t.conn.state.finAcked := by
  refine Run.Reaches.invariant
    (P := fun t : Track ↦ t.conn.state ≠ .closed → t.finAcked = t.conn.state.finAcked) ?_ ?_ h
  · rintro s (⟨now, iss, key, rfl⟩ | ⟨now, iss, key, seg, rfl⟩) _ <;> rfl
  · intro s e hs _ ih hopen
    have hopen₀ : s.conn.state ≠ .closed := fun hc ↦ hopen (closed_step s e hc)
    have hmark := (s.conn.step_mark e).resolve_left hopen
    change (s.finAcked || (s.finSent && _)) = _
    rw [ih hopen₀, Reachable.finSent_eq hs hopen₀]
    exact hmark.symm

/-- A synchronized state is preceded by the acknowledgement of our SYN. -/
theorem Reachable.synchronized (h : t.Reachable g) :
    t.conn.state ≠ .closed → t.conn.state.handshake = false →
      ∃ seg ∈ t.seen, hasFlag seg.flags tcpAck ∧ seg.ackNum = t.conn.iss + 1 := by
  refine Run.Reaches.invariant (P := fun t : Track ↦ t.conn.state ≠ .closed →
    t.conn.state.handshake = false →
      ∃ seg ∈ t.seen, hasFlag seg.flags tcpAck ∧ seg.ackNum = t.conn.iss + 1) ?_ ?_ h
  · rintro s (⟨now, iss, key, rfl⟩ | ⟨now, iss, key, seg, rfl⟩) _ hno <;> cases hno
  · intro s e hs _ ih hopen hleft
    have hopen₀ : s.conn.state ≠ .closed := fun hc ↦ hopen (closed_step s e hc)
    rw [iss_step]
    cases hst : s.conn.state.handshake with
    | false =>
        obtain ⟨seg, hseg, hack⟩ := ih hopen₀ hst
        exact ⟨seg, List.mem_append_left _ hseg, hack⟩
    | true =>
        obtain ⟨seg, hseg, hack⟩ := s.conn.step_handshake e hst hopen hleft
        simp only [acknowledges, Bool.and_eq_true, beq_iff_eq] at hack
        refine ⟨seg, List.mem_append_right _ (by simp [hseg]), hack.1, ?_⟩
        rw [hack.2]
        exact (Reachable.handshake hs).2 hst

theorem Reachable.finDone (h : t.Reachable g) (hfin : t.finSent) {t' : Track}
    (ht' : Run.Reaches (· = t) (fun _ _ ↦ True) Track.step t') :
    FinDone t.conn.sndNxt t.hist.out t'.conn t'.hist := by
  refine Run.Reaches.invariant
    (P := fun s : Track ↦ FinDone t.conn.sndNxt t.hist.out s.conn s.hist) ?_ ?_ ht'
  · rintro s rfl
    have hinv := h.sndInv
    refine ⟨hinv, by simpa [finSent] using hfin, rfl, fun u hu _ ↦ ?_,
      fun m hm _ ↦ ⟨m, hm, rfl, rfl⟩⟩
    obtain ⟨m, hm, -, hseq, hdata⟩ := (hinv.queue u hu).2
    exact ⟨m, hm, hseq, hdata⟩
  · intro s e _ _ hs
    exact step_invariant (g := {})
      (P := fun c w ↦ FinDone t.conn.sndNxt t.hist.out c w)
      (fun _ _ _ _ hs hact ↦ hs.step hact) (Guard.admits_empty _ _) hs

/-- The state of a connection records exactly the progress of both FINs; it is
synchronized only after our SYN was acknowledged; and at most one FIN is queued,
after which `snd_nxt` stands still and only repeated data is sent. -/
theorem state_records_progress (h : t.Reachable {}) :
    (t.conn.state ≠ .closed → t.conn.state ≠ .synSent → t.conn.state ≠ .synRcvd →
      (t.conn.state = .established ↔ ¬ t.finSent ∧ ¬ t.hist.fin) ∧
      (t.conn.state = .finWait1 ↔ t.finSent ∧ ¬ t.finAcked ∧ ¬ t.hist.fin) ∧
      (t.conn.state = .finWait2 ↔ t.finSent ∧ t.finAcked ∧ ¬ t.hist.fin) ∧
      (t.conn.state = .closing ∨ t.conn.state = .lastAck ↔
        t.finSent ∧ ¬ t.finAcked ∧ t.hist.fin) ∧
      (t.conn.state = .timeWait ↔ t.finSent ∧ t.finAcked ∧ t.hist.fin) ∧
      (t.conn.state = .closeWait ↔ t.hist.fin ∧ ¬ t.finSent) ∧
      ∃ seg ∈ t.seen, hasFlag seg.flags tcpAck ∧ seg.ackNum = t.conn.iss + 1) ∧
    finCount t.hist.out ≤ 1 ∧
    (t.finSent → ∀ t' : Track, Run.Reaches (· = t) (fun _ _ ↦ True) Track.step t' →
      t'.conn.sndNxt = t.conn.sndNxt ∧
      ∀ m ∈ t'.hist.out, m.data ≠ [] →
        ∃ m' ∈ t.hist.out, m'.seq = m.seq ∧ m'.data = m.data) := by
  refine ⟨fun hopen hsent hrcvd ↦ ?_, h.sndInv.fin_le, fun hfin t' ht' ↦
    ⟨(h.finDone hfin ht').next, (h.finDone hfin ht').out⟩⟩
  have hlisten := h.handshake.1
  have hleft : t.conn.state.handshake = false := by
    cases hs : t.conn.state <;> simp_all [TcpState.handshake]
  rw [h.finSent_eq hopen, h.finAcked_eq hopen, h.fin_eq hopen]
  refine ⟨?_, ?_, ?_, ?_, ?_, ?_, h.synchronized hopen hleft⟩
  all_goals
    cases hs : t.conn.state <;>
      simp_all [TcpState.finSent, TcpState.finAcked, TcpState.finTaken]

/-- The active close, with both FINs acknowledged. -/
theorem state_records_progress_timeWait :
    ∃ t : Track, t.conn.state = .timeWait ∧
      (t.conn.state = .timeWait ↔ t.finSent ∧ t.finAcked ∧ t.hist.fin) ∧
      (∃ seg ∈ t.seen, hasFlag seg.flags tcpAck ∧ seg.ackNum = t.conn.iss + 1) ∧
      finCount t.hist.out ≤ 1 := by
  let synAck : TcpHeader := ⟨80, 49152, 500, 1001, 80, tcpSyn ||| tcpAck, 1000, 0, 0⟩
  let finAck : TcpHeader := ⟨80, 49152, 501, 1002, 80, tcpFin ||| tcpAck, 1000, 0, 0⟩
  let t₁ := (active 0 1000 ⟨1, 49152, 2, 80⟩).step (.segment 0 synAck [])
  let t₃ := (t₁.step (.close 0)).step (.segment 0 finAck [])
  have h : t₃.Reachable {} := by
    refine .tail _ (.tail _ (.tail _ (.start (.inl ⟨_, _, _, rfl⟩)) ?_) ?_) ?_ <;>
      exact Guard.admits_empty _ _
  obtain ⟨hstate, hle, -⟩ := state_records_progress h
  obtain ⟨-, -, -, -, htime, -, hseen⟩ := hstate (by decide) (by decide) (by decide)
  exact ⟨t₃, by decide, htime, hseen, hle⟩

end Track

end MiniTcp
