import MiniTcp.Tcp.Alignment
import MiniTcp.Tcp.Resets

/-!
# Which states the two ends can be in together

Each end knows of the other what it has heard: an end that has left the handshake was
heard by the other, an end whose FIN is acknowledged knows that the other has taken it,
and an end that has taken a FIN knows that it was sent.  Together with the order in which
FINs are sent and taken this leaves few pairs of states.
-/

namespace MiniTcp

open Serial TcpConnection

/-! ## What is on the wire -/

/-- The flags of SYN, SYN,ACK, data and FIN. -/
def queuedFlags : List UInt8 :=
  [tcpSyn, tcpSyn ||| tcpAck, tcpAck ||| tcpPsh, tcpFin ||| tcpAck]

theorem flags_of_not_syn {flags : UInt8} (h : flags ∈ queuedFlags)
    (hsyn : ¬ hasFlag flags tcpSyn) :
    flags = tcpAck ||| tcpPsh ∨ flags = tcpFin ||| tcpAck := by
  simp only [queuedFlags, List.mem_cons, List.not_mem_nil, or_false] at h
  rcases h with rfl | rfl | h
  · exact absurd (by decide) hsyn
  · exact absurd (by decide) hsyn
  · exact h

theorem flags_of_fin {flags : UInt8} (h : flags = tcpAck ∨ flags ∈ queuedFlags)
    (hfin : hasFlag flags tcpFin) : flags = tcpFin ||| tcpAck := by
  simp only [queuedFlags, List.mem_cons, List.not_mem_nil, or_false] at h
  rcases h with rfl | rfl | rfl | rfl | h
  · exact absurd hfin (by decide)
  · exact absurd hfin (by decide)
  · exact absurd hfin (by decide)
  · exact absurd hfin (by decide)
  · exact h

namespace Track

variable {g : Guard} {t : Track}

/-- Everything that is queued, and everything sent besides acknowledgements and probes,
has one of four combinations of flags; no payload is longer than the MSS. -/
theorem Reachable.wire (h : t.Reachable g) :
    (∀ v ∈ t.conn.retransmitQueue, v.flags ∈ queuedFlags ∧ v.data.length ≤ mss) ∧
      ∀ m ∈ t.hist.out, (m.flags = tcpAck ∨ m.flags ∈ queuedFlags) ∧ m.data.length ≤ mss := by
  refine h.invariant
    (P := fun c w ↦ (∀ v ∈ c.retransmitQueue, v.flags ∈ queuedFlags ∧ v.data.length ≤ mss) ∧
      ∀ m ∈ w.out, (m.flags = tcpAck ∨ m.flags ∈ queuedFlags) ∧ m.data.length ≤ mss) ?_ ?_
  · have hnil : ([] : Bytes).length ≤ mss := Nat.zero_le _
    rintro t (⟨now, iss, key, rfl⟩ | ⟨now, iss, key, seg, rfl⟩)
    · have hflags : tcpSyn ∈ queuedFlags := by decide
      refine ⟨fun v hv ↦ ?_, fun m hm ↦ ?_⟩
      · rw [List.mem_singleton.mp hv]
        exact ⟨hflags, hnil⟩
      · rw [List.mem_singleton.mp hm]
        exact ⟨.inr hflags, hnil⟩
    · have hflags : tcpSyn ||| tcpAck ∈ queuedFlags := by decide
      refine ⟨fun v hv ↦ ?_, fun m hm ↦ ?_⟩
      · rw [List.mem_singleton.mp hv]
        exact ⟨hflags, hnil⟩
      · rw [List.mem_singleton.mp hm]
        exact ⟨.inr hflags, hnil⟩
  · rintro c c' w a ⟨hqueue, hout⟩ hact
    rcases hact.outbound_cases with ⟨flags, data, hq⟩ | hq
    · have hnew : flags ∈ queuedFlags ∧ data.length ≤ mss := by
        rcases hq.kind with ⟨rfl, -, hlen, -⟩ | ⟨rfl, rfl, -⟩
        · exact ⟨by decide, hlen.trans (chunkLen_le c).1⟩
        · exact ⟨by decide, Nat.zero_le _⟩
      obtain ⟨now, happ⟩ := hq.queue
      refine ⟨fun v hv ↦ ?_, fun m hm ↦ ?_⟩
      · rw [happ] at hv
        rcases List.mem_append.mp hv with hv | hv
        · exact hqueue v hv
        · rw [List.mem_singleton.mp hv]
          exact hnew
      · rw [Effect.add_out, hq.out] at hm
        rcases List.mem_append.mp hm with hm | hm
        · exact hout m hm
        · rw [List.mem_singleton.mp hm]
          exact ⟨.inr hnew.1, hnew.2⟩
    · refine ⟨fun v hv ↦ ?_, fun m hm ↦ ?_⟩
      · obtain ⟨v₀, hv₀, hflags, -, hdata⟩ := hq.queue v hv
        rw [← hflags, ← hdata]
        exact hqueue v₀ hv₀
      · rcases List.mem_append.mp hm with hm | hm
        · exact hout m hm
        · rcases (hq.out m hm).2 with ⟨-, -, hflags, -, hdata⟩ |
            ⟨-, ⟨v, hv, hflags, -, hdata⟩ | ⟨hflags, hdata⟩⟩
          · rw [hdata]
            exact ⟨.inl hflags, by decide⟩
          · rw [hflags, hdata]
            exact ⟨.inr (hqueue v hv).1, (hqueue v hv).2⟩
          · rw [hdata]
            exact ⟨.inl hflags, Nat.zero_le _⟩

end Track

/-! ## The ends know of each other's FINs -/

theorem Flow.fin_of_taken {t u : Track} (h : Flow t u) (hsnd : SndInv t.conn t.hist)
    (hfin : finCount t.hist.out = 1) (hle : sentLen t.hist.out ≤ u.taken) :
    u.hist.fin = true := by
  have hlen := hsnd.len
  unfold Track.taken at hle
  split_ifs at hle with hsyn
  · have hrec : u.received.length ≤ _ := (h.receiving hsyn).stream.length_le
    by_contra hne
    rw [Bool.eq_false_of_not_eq_true hne, Bool.toNat_false] at hle
    omega
  · omega

theorem Flow.fin_of_acknowledges {t u : Track} (h : Flow t u) (hsnd : SndInv t.conn t.hist)
    (hw : t.NoWrap) (hfin : t.conn.state.finSent) {m : Emission} (hm : m ∈ u.hist.out)
    (hack : Track.acknowledges t.conn.sndNxt m.parsed) : u.hist.fin = true := by
  simp only [Track.acknowledges, Bool.and_eq_true, beq_iff_eq] at hack
  obtain ⟨j, -, hj, heq⟩ := h.ackNum hm hack.1
  refine h.fin_of_taken hsnd (hsnd.finSent hfin) ?_
  have hnext := hsnd.toNat_sndNxt hw
  have hle := h.taken_le hsnd
  have hsame : (shift t.conn.iss j).toNat = t.conn.sndNxt.toNat :=
    congrArg UInt32.toNat (heq.symm.trans hack.2)
  change t.conn.iss.toNat + sentLen t.hist.out < 2 ^ 32 at hw
  rw [toNat_shift (by omega)] at hsame
  omega

theorem Flow.finAcked_step {t u : Track} (h : Flow t u) (hlive : t.Reachable {}) (hw : t.NoWrap)
    {sent : List Emission} {ce : ConnEvent} (hsent : ∀ m ∈ sent, m.IsReset ∨ m ∈ u.hist.out)
    (hheard : ce.Heard sent) (hacked : (t.step ce).conn.state.finAcked) :
    t.conn.state.finAcked ∨ u.hist.fin = true := by
  rcases t.conn.step_mark ce with hclosed | hmark
  · rw [Track.step, hclosed] at hacked
    cases hacked
  · have hboth : (t.conn.step ce).1.state.finAcked = true := hacked
    rw [hmark, Bool.or_eq_true, Bool.and_eq_true] at hboth
    rcases hboth with hbefore | ⟨hfin, hany⟩
    · exact .inl hbefore
    · cases ce with
      | segment now seg data =>
          obtain ⟨m, hm, rfl, rfl⟩ := hheard
          refine .inr (h.fin_of_acknowledges hlive.sndInv hw hfin
            ((hsent m hm).resolve_left fun hrst ↦ ?_) hany)
          have hflag : hasFlag m.parsed.flags tcpRst := hrst.1
          change (t.conn.processSegment now m.parsed m.data).conn.state.finAcked at hacked
          rw [processSegment_rst hflag hlive.handshake.1] at hacked
          cases hacked
      | _ => cases hany

namespace Conversation

variable {c : Conversation} {x : Side} {t u : Track}

theorem Moves.fin_mono (h : c.Moves x t) (y : Side) (hfin : (c.party y).hist.fin = true) :
    ((c.move (x, t)).party y).hist.fin = true := by
  refine h.party_mono (R := fun t t' ↦ t.hist.fin = true → t'.hist.fin = true) (fun _ hf ↦ hf)
    (fun _ _ hf ↦ ?_) (fun t ce hf ↦ ?_) y hfin
  · cases hf
  · change (t.hist.fin || _) = true
    rw [hf, Bool.true_or]

/-- FIN_WAIT_2 and TIME_WAIT are reached only when the other end has taken our FIN. -/
theorem Reached.fin_of_finAcked (h : c.Reached) (hw : c.NoWrap)
    (hacked : (c.party x).conn.state.finAcked) : (c.party x.other).hist.fin = true := by
  refine h.invariant (P := fun c ↦ ∀ x, (c.party x).conn.state.finAcked = true →
    (c.party x.other).hist.fin = true) (by nofun) ?_ hw x hacked
  intro c x t _ hw hfits hmove _ ih y hy
  rcases x.eq_or_eq_other y with rfl | rfl
  · rw [party_move_self] at hy
    rw [party_move_other]
    cases hmove with
    | connect | answer => cases hy
    | @event t ce ht hce =>
        obtain ⟨sent, hsent, hheard⟩ := hce
        have hflow := hfits.flow y
        rw [party_of_track ht] at hflow
        rcases hflow.finAcked_step (hfits.live y t ht) (hfits.noWrap hw ht) hsent hheard hy with
          hacked | hfin
        · exact ih y (by rwa [party_of_track ht])
        · exact hfin
  · rw [party_move_other] at hy
    exact hmove.fin_mono _ (ih _ hy)

end Conversation

/-! ## The order of the FINs -/

namespace Act

variable {g : Guard} {c c' : TcpConnection} {w a : Effect}

theorem lastAck_cases (h : Act g c a c') (hst : c'.state = .lastAck) :
    c.state = .lastAck ∨ c.state.sends := by
  cases h with
  | synAck | finalAck | abort | finAcked => cases hst
  | ack => exact .inl (by rwa [processAck_state] at hst)
  | @receive seg payload s deadline hrec _ hs =>
      change s = .lastAck at hst
      subst hst
      cases hf : (c.receiveDataAndMaybeFin seg payload).fin <;>
        simp_all [TcpState.AfterReceive]
  | sendFin now s hs =>
      right
      rcases hs with ⟨hs, -⟩ | ⟨hs, -⟩ <;> rw [hs] <;> rfl
  | requestClose hs => exact .inr hs
  | _ => exact .inl hst

theorem closing_cases (h : Act g c a c') (hst : c'.state = .closing) :
    c.state = .closing ∨ a.fin = true := by
  cases h with
  | synAck | finalAck | abort | finAcked => cases hst
  | ack => exact .inl (by rwa [processAck_state] at hst)
  | @receive seg payload s deadline hrec _ hs =>
      change s = .closing at hst
      subst hst
      cases hf : (c.receiveDataAndMaybeFin seg payload).fin with
      | true => exact .inr rfl
      | false => simp_all [TcpState.AfterReceive, TcpState.receives]
  | sendFin now s hs =>
      change s = .closing at hst
      subst hst
      rcases hs with ⟨-, hs⟩ | ⟨-, hs⟩ <;> cases hs
  | _ => exact .inl hst

/-- In LAST_ACK the FIN acknowledges everything that was taken. -/
theorem fin_ackNum (h : Act g c a c') (hsnd : SndInv c w)
    (hold : c.state = .lastAck → ∀ m ∈ w.out, m.flags = tcpFin ||| tcpAck →
      m.packet.hdr.ackNum = c.rcvNxt) (hst : c'.state = .lastAck) :
    ∀ m ∈ (w + a).out, m.flags = tcpFin ||| tcpAck → m.packet.hdr.ackNum = c'.rcvNxt := by
  intro m hm hflags
  rcases List.mem_append.mp hm with hm | hm
  · rcases h.lastAck_cases hst with hlast | hsends
    · rw [hold hlast m hm hflags]
      rcases h.inbound_cases with ⟨hs, -⟩ | ⟨seg, payload, hs, -⟩ | ⟨-, -, -, hnxt, -⟩
      · rw [hlast] at hs
        cases hs
      · rw [hlast] at hs
        cases hs
      · exact hnxt.symm
    · have hfin : hasFlag m.flags tcpFin := by
        rw [hflags]
        decide
      have hone := ((hsnd.faithful hm (.inr hfin)).fin hfin).1
      have hzero := hsnd.finCount_of_sends hsends
      omega
  · exact h.ackNum_out m hm (by rw [hflags]; decide)

end Act

namespace Track

variable {g : Guard} {t : Track} {ce : ConnEvent}

theorem lastAck_step (h : (t.step ce).conn.state = .lastAck) (hfin : t.conn.state.finSent) :
    t.conn.state = .lastAck := by
  by_contra hne
  have hinv := step_invariant (g := {}) (e := ce)
    (P := fun c _ ↦ c.state ≠ .lastAck ∧ (c.state.finSent ∨ c.state = .closed))
    (fun c c' _ a hc hact ↦ ?_) (Guard.admits_empty _ _) ⟨hne, .inl hfin⟩
  · exact hinv.1 h
  · have hsends : c.state.sends = false := by
      rcases hc.2 with hs | hs
      · cases hst : c.state <;> simp_all [TcpState.finSent, TcpState.sends]
      · rw [hs]
        rfl
    refine ⟨fun hlast ↦ ?_, ?_⟩
    · rcases hact.lastAck_cases hlast with hs | hs
      · exact hc.1 hs
      · rw [hsends] at hs
        cases hs
    · rcases hact.outbound_cases with ⟨flags, data, hq⟩ | hq
      · have hs := hq.sends
        rw [hsends] at hs
        cases hs
      · rcases hq.state with hs | ⟨hopen, hs⟩
        · exact .inr hs
        · exact .inl (hs.trans (hc.2.resolve_right hopen))

/-- CLOSING is entered with a FIN. -/
theorem closing_step (h : (t.step ce).conn.state = .closing) (hne : t.conn.state ≠ .closing) :
    ∃ now seg payload, ce = .segment now seg payload ∧ hasFlag seg.flags tcpFin := by
  have hfin : (t.conn.step ce).2.fin = true := by
    have hinv := (step_acts (Guard.admits_empty t.conn ce)).invariant (w := 0)
      (P := fun c w ↦ c.state = .closing → w.fin = true) (fun c c' w a hc hact hs ↦ ?_)
      fun hs ↦ absurd hs hne
    · exact hinv h
    · rw [Effect.add_fin, Bool.or_eq_true]
      exact (hact.closing_cases hs).imp hc id
  cases ce with
  | segment now seg payload =>
      refine ⟨now, seg, payload, rfl, ?_⟩
      have hacts : Acts { data := fun _ s _ ↦ s = seg } t.conn
          (t.conn.step (.segment now seg payload)).2 (t.conn.step (.segment now seg payload)).1 :=
        step_acts ⟨fun _ ↦ trivial, fun _ _ _ ↦ rfl⟩
      refine hacts.invariant (w := 0) (P := fun _ w ↦ w.fin = true → hasFlag seg.flags tcpFin)
        (fun c c' w a hc hact hor ↦ ?_) (fun hno ↦ by cases hno) hfin
      rw [Effect.add_fin, Bool.or_eq_true] at hor
      refine hor.elim hc fun hyes ↦ ?_
      obtain ⟨s, payload, rfl, hflag⟩ := hact.fin_cases hyes
      exact hflag
  | _ => cases hfin

theorem Reachable.fin_ackNum (h : t.Reachable g) (hst : t.conn.state = .lastAck) :
    ∀ m ∈ t.hist.out, m.flags = tcpFin ||| tcpAck → m.packet.hdr.ackNum = t.conn.rcvNxt := by
  refine (h.invariant (P := fun c w ↦ SndInv c w ∧ (c.state = .lastAck → ∀ m ∈ w.out,
    m.flags = tcpFin ||| tcpAck → m.packet.hdr.ackNum = c.rcvNxt)) (fun t ht ↦ ?_)
    fun c c' w a hc hact ↦ ⟨hc.1.step hact, hact.fin_ackNum hc.1 hc.2⟩).2 hst
  refine ⟨ht.sndInv, fun hs ↦ ?_⟩
  rcases ht with ⟨now, iss, key, rfl⟩ | ⟨now, iss, key, seg, rfl⟩ <;> cases hs

end Track

/-! ## Pairs of states -/

/-- What the state `s` of an end says about the state `s'` of the other. -/
structure TcpState.Meets (s s' : TcpState) : Prop where
  acked : s.finAcked → s'.finTaken
  taken : s.finTaken → s'.finSent
  heard : s.handshake = false → s' ≠ .synSent
  opened : s = .synRcvd → s' ≠ .synRcvd
  order : s = .lastAck ∨ s = .closing → s' ≠ .lastAck

/-- The states of the other end, if neither end is closed. -/
def TcpState.partners : TcpState → List TcpState
  | .synSent => [.synSent, .synRcvd]
  | .synRcvd => [.synSent, .established, .finWait1]
  | .established => [.synRcvd, .established, .finWait1]
  | .finWait1 => [.synRcvd, .established, .finWait1, .closeWait, .closing, .lastAck]
  | .finWait2 => [.closeWait, .closing, .lastAck]
  | .closeWait => [.finWait1, .finWait2]
  | .closing => [.finWait1, .finWait2, .closing, .timeWait]
  | .lastAck => [.finWait1, .finWait2, .timeWait]
  | .timeWait => [.closing, .lastAck, .timeWait]
  | .closed | .listen => []

theorem TcpState.Meets.mem_partners {s s' : TcpState} (h : s.Meets s') (h' : s'.Meets s)
    (hs : s ≠ .closed ∧ s ≠ .listen) (hs' : s' ≠ .closed ∧ s' ≠ .listen) :
    s' ∈ s.partners := by
  obtain ⟨hacked, htaken, hheard, hopened, horder⟩ := h
  obtain ⟨hacked', htaken', hheard', -, horder'⟩ := h'
  cases s <;> cases s' <;>
    simp_all [partners, finAcked, finTaken, finSent, handshake]

namespace Flow

variable {t u : Track}

theorem finSent (h : Flow t u) (hlive : t.Reachable {}) (hopen : t.conn.state ≠ .closed)
    (hfin : u.hist.fin = true) : t.conn.state.finSent := by
  rw [← hlive.finSent_eq hopen, Track.finSent, h.fin hfin]
  rfl

theorem rcvNxt_of_fin (h : Flow t u) (hsnd : SndInv t.conn t.hist) (hfin : u.hist.fin = true) :
    u.conn.rcvNxt = t.conn.sndNxt := by
  have hsyn : u.hist.syn = true := by
    by_contra hne
    have hno := (h.rcv.1 (by simpa using hne)).fin
    rw [hfin] at hno
    cases hno
  have hrec := h.receiving hsyn
  rw [hrec.next, hsnd.next, add_one, shift_shift, (hrec.fin hfin).1, hsnd.len, h.fin hfin, hfin]
  rfl

/-- An end does not enter CLOSING when the other has taken its FIN before it sent its own. -/
theorem closing_of_lastAck (h : Flow t u) (hlive : t.Reachable {}) (hulive : u.Reachable {})
    {sent : List Emission} {ce : ConnEvent} (hsent : ∀ m ∈ sent, m.IsReset ∨ m ∈ u.hist.out)
    (hheard : ce.Heard sent) (hu : u.conn.state = .lastAck)
    (hst : (t.step ce).conn.state = .closing) : t.conn.state = .closing := by
  by_contra hne
  have hopen : t.conn.state ≠ .closed := by
    intro hc
    rw [t.closed_step ce hc] at hst
    cases hst
  have hfin : u.hist.fin = true := by
    rw [hulive.fin_eq (by rw [hu]; exact TcpState.noConfusion), hu]
    rfl
  obtain ⟨now, seg, payload, rfl, hflag⟩ := Track.closing_step hst hne
  obtain ⟨m, hm, rfl, rfl⟩ := hheard
  have hout : m ∈ u.hist.out := by
    refine (hsent m hm).resolve_left fun hrst ↦ ?_
    have hreset : hasFlag m.parsed.flags tcpRst := hrst.1
    change (t.conn.processSegment now m.parsed m.data).conn.state = .closing at hst
    rw [processSegment_rst hreset hlive.handshake.1] at hst
    cases hst
  have hflags := flags_of_fin (hulive.wire.2 m hout).1 hflag
  -- the FIN acknowledges ours, so it leads to TIME_WAIT
  have hack : Track.acknowledges t.conn.sndNxt m.parsed := by
    have hnum : m.parsed.ackNum = t.conn.sndNxt :=
      (hulive.fin_ackNum hu m hout hflags).trans (h.rcvNxt_of_fin hlive.sndInv hfin)
    have hbit : hasFlag m.parsed.flags tcpAck := by
      change hasFlag m.flags tcpAck
      rw [hflags]
      decide
    simp [Track.acknowledges, hnum, hbit]
  rcases t.conn.step_mark (.segment now m.parsed m.data) with hclosed | hmark
  · exact absurd (hst.symm.trans hclosed) TcpState.noConfusion
  · have hboth : (t.conn.step (.segment now m.parsed m.data)).1.state.finAcked = true := by
      rw [hmark, h.finSent hlive hopen hfin]
      simp [ConnEvent.header, hack]
    rw [show (t.conn.step (.segment now m.parsed m.data)).1.state = .closing from hst] at hboth
    cases hboth

end Flow

namespace Track

theorem synRcvd_step {t : Track} {ce : ConnEvent} (h : (t.step ce).conn.state = .synRcvd) :
    t.conn.state = .synRcvd := by
  by_contra hne
  exact step_invariant (g := {}) (P := fun c _ ↦ c.state ≠ .synRcvd)
    (fun _ _ _ _ hc hact ↦ hact.not_synRcvd hc) (Guard.admits_empty _ _) hne h

theorem Reachable.fin_of_finTaken {g : Guard} {t : Track} (h : t.Reachable g)
    (hopen : t.conn.state ≠ .closed) (hst : t.conn.state.finTaken) : t.hist.fin = true :=
  (h.fin_eq hopen).trans hst

end Track

namespace Conversation

variable {c : Conversation} {x : Side} {t u : Track}

/-- Not both ends are opened by the other, and not both send their FIN after the other's. -/
def Apart (t u : Track) : Prop :=
  (t.conn.state = .synRcvd → u.conn.state ≠ .synRcvd) ∧
    (t.conn.state = .lastAck ∨ t.conn.state = .closing → u.conn.state ≠ .lastAck)

/-- The end `t` has moved; `u` has not. -/
theorem Fits.apart_step (hfits : Fits c) (hmove : c.Moves x t) (hu : c.track x.other = some u)
    (ih : ∀ t₀, c.track x = some t₀ → Apart t₀ u ∧ Apart u t₀) : Apart t u ∧ Apart u t := by
  have hulive := hfits.live _ u hu
  cases hmove with
  | connect =>
      refine ⟨⟨fun hs ↦ ?_, fun hs ↦ ?_⟩, fun _ hs ↦ ?_, fun _ hs ↦ ?_⟩
      · cases hs
      · rcases hs with hs | hs <;> cases hs
      · cases hs
      · cases hs
  | answer now iss key hnone hm hsyn =>
      have hno := hfits.unheard x hnone
      rw [party_of_track hu] at hno
      have hother : u.conn.state ≠ .synRcvd := by
        intro hs
        rcases (hulive.rcvCount.1 hno).state with hs' | hs' <;> rw [hs] at hs' <;> cases hs'
      refine ⟨⟨fun _ ↦ hother, fun hs ↦ ?_⟩, fun hs _ ↦ hother hs, fun _ hs ↦ ?_⟩
      · rcases hs with hs | hs <;> cases hs
      · cases hs
  | @event t ce ht hce =>
      obtain ⟨sent, hsent, hheard⟩ := hce
      obtain ⟨htu, hut⟩ := ih t ht
      have hlive := hfits.live x t ht
      have hflow := hfits.flow x
      rw [party_of_track ht, party_of_track hu] at hflow
      rw [party_of_track hu] at hsent
      -- a FIN that was taken was sent before
      have hsame (hu : u.conn.state ≠ .closed ∧ u.conn.state.finTaken)
          (hlast : (t.step ce).conn.state = .lastAck) : t.conn.state = .lastAck := by
        refine Track.lastAck_step hlast (hflow.finSent hlive (fun hc ↦ ?_)
          (hulive.fin_of_finTaken hu.1 hu.2))
        rw [t.closed_step ce hc] at hlast
        cases hlast
      refine ⟨⟨fun hs ↦ htu.1 (Track.synRcvd_step hs), fun hs hlast ↦ ?_⟩,
        fun hs hs' ↦ hut.1 hs (Track.synRcvd_step hs'), fun hs hlast ↦ ?_⟩
      · have hlastAck : u.conn.state ≠ .closed ∧ u.conn.state.finTaken := by
          rw [hlast]
          exact ⟨TcpState.noConfusion, rfl⟩
        rcases hs with hs | hs
        · exact htu.2 (.inl (hsame hlastAck hs)) hlast
        · exact htu.2 (.inr (hflow.closing_of_lastAck hlive hulive hsent hheard hlast hs)) hlast
      · refine hut.2 hs (hsame ?_ hlast)
        rcases hs with hs | hs <;> rw [hs] <;> exact ⟨TcpState.noConfusion, rfl⟩

theorem Reached.apart (h : c.Reached) (hw : c.NoWrap) (ht : c.track x = some t)
    (hu : c.track x.other = some u) : Apart t u := by
  refine h.invariant (P := fun c ↦ ∀ x t u, c.track x = some t → c.track x.other = some u →
    Apart t u) (fun _ _ _ ht ↦ (Option.some_ne_none _ ht.symm).elim) ?_ hw x t u ht hu
  intro c x t' _ _ hfits hmove _ ih y t u ht hu
  rcases x.eq_or_eq_other y with rfl | rfl
  · rw [track_move_self] at ht
    obtain rfl := Option.some.inj ht
    rw [track_move_other] at hu
    refine (hfits.apart_step hmove hu fun t₀ ht₀ ↦ ⟨ih y t₀ u ht₀ hu, ?_⟩).1
    exact ih y.other u t₀ hu (by rwa [Side.other_other])
  · rw [track_move_other] at ht
    rw [Side.other_other, track_move_self] at hu
    obtain rfl := Option.some.inj hu
    refine (hfits.apart_step hmove ht fun t₀ ht₀ ↦ ⟨ih x t₀ t ht₀ ht, ?_⟩).2
    exact ih x.other t t₀ ht (by rwa [Side.other_other])

theorem Reached.meets (h : c.Reached) (hw : c.NoWrap) (ht : c.track x = some t)
    (hu : c.track x.other = some u) (hopen : t.conn.state ≠ .closed)
    (hopen' : u.conn.state ≠ .closed) : t.conn.state.Meets u.conn.state := by
  have hfits := h.fits_of_noWrap hw
  have hlive := hfits.live x t ht
  have hulive := hfits.live _ u hu
  have hflow := hfits.flow x
  have hback := hfits.flow x.other
  rw [party_of_track ht, party_of_track hu] at hflow
  rw [Side.other_other, party_of_track ht, party_of_track hu] at hback
  obtain ⟨hopened, horder⟩ := h.apart hw ht hu
  refine ⟨fun hacked ↦ ?_, fun htaken ↦ ?_, fun hpast ↦ ?_, hopened, horder⟩
  · have hfin := h.fin_of_finAcked hw (x := x) (by rwa [party_of_track ht])
    rw [party_of_track hu] at hfin
    rwa [← hulive.fin_eq hopen']
  · exact hback.finSent hulive hopen' (hlive.fin_of_finTaken hopen htaken)
  · obtain ⟨j, hj, -, hpos⟩ := hflow.una
    refine (hulive.rcvCount.2 ?_).1
    by_contra hne
    rw [Track.taken, if_neg hne] at hj
    have hone := hpos hpast hopen
    omega

end Conversation

namespace Network

variable {ι : Type} [DecidableEq ι] {owner : UInt32 → ι} {n : Network ι} {k : ConnectionKey}
  {t u : Track}

/-- Of the 81 pairs of states of two open ends, 52 never occur. -/
theorem states_of_both_ends (hn : n.Reached owner) (ha : n.born k ≤ 1) (hb : n.born k.mirror ≤ 1)
    (ht : n.life k = some t) (hu : n.life k.mirror = some u)
    (hw : t.conn.iss.toNat + t.hist.accepted.length + 2 < 2 ^ 32)
    (hw' : u.conn.iss.toNat + u.hist.accepted.length + 2 < 2 ^ 32)
    (hopen : t.conn.state ≠ .closed) (hopen' : u.conn.state ≠ .closed) :
    u.conn.state ∈ t.conn.state.partners := by
  have hlink := hn.link k ha hb
  have hnowrap : (n.link k).NoWrap :=
    noWrap_link (by rwa [party_of_life ht]) (by rwa [party_of_life hu])
  have hmeets := hlink.meets (x := .a) hnowrap ht hu hopen hopen'
  have hmeets' := hlink.meets (x := .b) hnowrap hu ht hopen' hopen
  exact hmeets.mem_partners hmeets' ⟨hopen, (hn.kept.live k t ht).1.handshake.1⟩
    ⟨hopen', (hn.kept.live _ u hu).1.handshake.1⟩

/-- Both ends close at the same time, and one of them has the other's FIN. -/
theorem states_of_both_ends_closing :
    ∃ (owner : UInt32 → Bool) (n : Network Bool) (k : ConnectionKey) (t u : Track),
      n.Reached owner ∧ n.life k = some t ∧ n.life k.mirror = some u ∧
        t.conn.state = .finWait1 ∧ u.conn.state = .closing ∧
        u.conn.state ∈ t.conn.state.partners := by
  let owner (addr : UInt32) : Bool := addr == 2
  let k : ConnectionKey := ⟨1, 49152, 2, 80⟩
  let n₁ : Network Bool := (((start.act true (.listen 2 80 false)).act false
    (.connect 0 1000 1 2 80)).deliver owner 0 5000 0).deliver owner 0 0 1
  let n := (((n₁.deliver owner 0 0 2).act false (.close 0 k)).act true
    (.close 0 k.mirror)).deliver owner 0 0 3
  have h₁ : n₁.Reached owner :=
    ((((reached_start owner).act true (.listen 2 80 false) trivial).act false
      (.connect 0 1000 1 2 80) rfl).deliver 0 5000 0).deliver 0 0 1
  have hn : n.Reached owner :=
    (((h₁.deliver 0 0 2).act false (.close 0 k) trivial).act true (.close 0 k.mirror)
      trivial).deliver 0 0 3
  obtain ⟨t, ht⟩ : ∃ t, n.life k = some t := Option.isSome_iff_exists.mp (by decide +kernel)
  obtain ⟨u, hu⟩ : ∃ u, n.life k.mirror = some u :=
    Option.isSome_iff_exists.mp (by decide +kernel)
  obtain rfl := party_of_life ht
  obtain rfl := party_of_life hu
  have hpair := states_of_both_ends (k := k) hn (by decide +kernel) (by decide +kernel) ht hu
    (by decide +kernel) (by decide +kernel) (by decide +kernel) (by decide +kernel)
  exact ⟨owner, n, k, _, _, hn, ht, hu, by decide +kernel, by decide +kernel, hpair⟩

end Network

end MiniTcp
