import MiniTcp.Tcp.Queue
import MiniTcp.Tcp.System

/-!
# End-to-end integrity of the stream

`Flow t u` says how the end `t` as a sender and the end `u` as a receiver fit
together, whatever is on the way between them: `u` follows the bytes that `t` has
sent, and `t` believes at most what `u` has taken to be acknowledged.  An event of
either end keeps both directions, because everything it can hear was sent by the
other end.
-/

namespace MiniTcp

open Serial TcpConnection

/-! ## Actions seen by the other end -/

namespace Act

variable {g : Guard} {c c' : TcpConnection} {a : Effect}

theorem irs_cases (h : Act g c a c') :
    (∃ seg, hasFlag seg.flags tcpSyn ∧ g.ack c seg ∧ c'.irs = seg.seqNum) ∨
      a.syn = false ∧ c'.irs = c.irs := by
  cases h with
  | synAck _ hsyn _ _ hg => exact .inl ⟨_, hsyn, hg, rfl⟩
  | @ack seg => exact .inr ⟨rfl, congrArg Inbound.irs (processAck_inbound c seg)⟩
  | @receive seg payload =>
      obtain ⟨nxt, buf, ooo, hconn⟩ := receive_eq c seg payload
      exact .inr ⟨rfl, by rw [hconn]⟩
  | _ => exact .inr ⟨rfl, rfl⟩

theorem fin_cases (h : Act g c a c') (hfin : a.fin = true) :
    ∃ seg payload, g.data c seg payload ∧ hasFlag seg.flags tcpFin := by
  cases h with
  | @receive seg payload s deadline _ hg =>
      refine ⟨seg, payload, hg, ?_⟩
      change (c.receiveDataAndMaybeFin seg payload).fin = true at hfin
      by_cases heq : seg.seqNum = c.rcvNxt
      · rwa [(receive_of_eq payload heq).2] at hfin
      · by_cases hgt : seg.seqNum > c.rcvNxt
        · rw [(receive_of_gt payload heq hgt).2] at hfin
          cases hfin
        · rw [(receive_of_lt payload heq hgt).2] at hfin
          cases hfin
  | _ => cases hfin

theorem handshake_cases (h : Act g c a c') (hleft : c'.state.handshake = false)
    (hopen : c'.state ≠ .closed) :
    (∃ seg, g.ack c seg ∧ c'.sndUna = seg.ackNum) ∨
      c.state.handshake = false ∧ c.state ≠ .closed := by
  cases h with
  | synAck _ _ _ _ hg | finalAck _ _ _ hg => exact .inl ⟨_, hg, rfl⟩
  | ack =>
      rw [processAck_state] at hleft hopen
      exact .inr ⟨hleft, hopen⟩
  | receive s deadline hrec =>
      right
      cases hs : c.state <;> simp [hs, TcpState.receives, TcpState.handshake] at hrec ⊢
  | sendFin now s hst =>
      right
      rcases hst with ⟨hst, -⟩ | ⟨hst, -⟩ <;> simp [hst, TcpState.handshake]
  | finAcked deadline hst =>
      right
      simp [hst, TcpState.handshake]
  | abort => exact absurd rfl hopen
  | _ => exact .inr ⟨hleft, hopen⟩

end Act

namespace Track

/-- How many numbers of the peer's were taken: its SYN, its bytes and its FIN. -/
def taken (u : Track) : ℕ :=
  if u.hist.syn then 1 + u.received.length + u.hist.fin.toNat else 0

theorem received_step (u : Track) (e : ConnEvent) : u.received <+: (u.step e).received :=
  step_invariant (g := {}) (P := fun c w ↦ u.received <+: c.received w)
    (fun _ _ w _ hpre hact ↦ hpre.trans (hact.received_mono w)) (Guard.admits_empty _ _)
    (List.prefix_refl _)

theorem taken_step (u : Track) (e : ConnEvent) : u.taken ≤ (u.step e).taken := by
  have hlen := (u.received_step e).length_le
  have hsyn : (u.step e).hist.syn = (u.hist.syn || (u.conn.step e).2.syn) := rfl
  have hfin : (u.step e).hist.fin = (u.hist.fin || (u.conn.step e).2.fin) := rfl
  unfold taken
  rw [hsyn, hfin]
  cases u.hist.syn
  · exact Nat.zero_le _
  · cases u.hist.fin <;> simp <;> omega

end Track

/-! ## One direction -/

/-- What the sending end `t` and the receiving end `u` know of each other. -/
structure Flow (t u : Track) : Prop where
  rcv : RcvInv (t.conn.iss + 1) (sentBytes t.hist.out) u.conn u.hist
  irs : u.hist.syn = true → u.conn.irs = t.conn.iss
  fin : u.hist.fin = true → finCount t.hist.out = 1
  una : ∃ j ≤ u.taken, t.conn.sndUna = shift t.conn.iss j ∧
    (t.conn.state.handshake = false → t.conn.state ≠ .closed → 1 ≤ j)
  probes : ∀ m ∈ t.hist.out, m.origin = .probe →
    Passed (t.conn.iss + 1) u.received.length m.seq

namespace Flow

variable {t u : Track} {m : Emission}

theorem receiving (h : Flow t u) (hsyn : u.hist.syn = true) :
    Receiving (t.conn.iss + 1) (sentBytes t.hist.out) u.conn u.hist :=
  (h.rcv.2 hsyn).2 (by rw [h.irs hsyn])

theorem taken_le (h : Flow t u) (hsnd : SndInv t.conn t.hist) :
    u.taken ≤ sentLen t.hist.out := by
  unfold Track.taken
  split_ifs with hsyn
  · have hle : u.received.length ≤ _ := (h.receiving hsyn).stream.length_le
    have hlen := hsnd.len
    cases hf : u.hist.fin with
    | false =>
        rw [Bool.toNat_false]
        omega
    | true =>
        have hone := h.fin hf
        rw [Bool.toNat_true]
        omega
  · exact Nat.zero_le _

theorem ackNum (h : Flow t u) (hm : m ∈ u.hist.out) (hack : hasFlag m.flags tcpAck) :
    ∃ j, 1 ≤ j ∧ j ≤ u.taken ∧ m.packet.hdr.ackNum = shift t.conn.iss j := by
  cases hsyn : u.hist.syn with
  | false =>
      have hnot := (h.rcv.1 hsyn).out m hm
      rw [hnot] at hack
      cases hack
  | true =>
      obtain ⟨j, hj, heq⟩ := (h.receiving hsyn).acks m hm hack
      refine ⟨1 + j, by omega, ?_, by rw [heq, add_one, shift_shift]⟩
      change j ≤ u.received.length + _ at hj
      rw [Track.taken, if_pos hsyn]
      omega

theorem received_eq (h : Flow t u) (hfin : u.hist.fin = true) :
    u.received = sentBytes t.hist.out := by
  have hsyn : u.hist.syn = true := by
    by_contra hne
    have hno := (h.rcv.1 (by simpa using hne)).fin
    rw [hfin] at hno
    cases hno
  have hrec := h.receiving hsyn
  exact hrec.stream.eq_of_length (hrec.fin hfin).1

/-- Data on the way to `u` belongs where it is put, or was taken already. -/
theorem piece (h : Flow t u) (hsnd : SndInv t.conn t.hist) (hm : m ∈ t.hist.out)
    (hne : m.data ≠ []) :
    Piece (t.conn.iss + 1) (sentBytes t.hist.out) u.received.length m.seq m.data := by
  rcases hsnd.out m hm with ⟨hprobe, -⟩ | ⟨-, hf⟩
  · exact .inr (h.probes m hm hprobe)
  · obtain ⟨p, hseq, hp, hd⟩ := hf.carries hne
    exact .inl ⟨p, by rw [hseq, add_one, shift_shift], hp, hd⟩

end Flow

theorem SndInv.faithful {c : TcpConnection} {w : Effect} {m : Emission} (h : SndInv c w)
    (hm : m ∈ w.out) (hflag : hasFlag m.flags tcpSyn ∨ hasFlag m.flags tcpFin) :
    Faithful c.iss (sentBytes w.out) (finCount w.out) m.flags m.seq m.data := by
  rcases h.out m hm with ⟨-, hack, -⟩ | ⟨-, hf⟩
  · rw [hack] at hflag
    exact absurd hflag (by decide)
  · exact hf

/-! ## What one end can hear of the other -/

/-- The segments that `u` can be given when `t` is the other end. -/
def heardFrom (t u : Track) : Guard where
  ack _ seg := (∃ j, 1 ≤ j ∧ j ≤ t.taken ∧ seg.ackNum = shift u.conn.iss j) ∧
    (hasFlag seg.flags tcpSyn → seg.seqNum = t.conn.iss)
  data _ seg payload :=
    (payload ≠ [] → Piece (t.conn.iss + 1) (sentBytes t.hist.out) u.received.length
        seg.seqNum payload) ∧
      FinAt (t.conn.iss + 1) (sentBytes t.hist.out) seg payload ∧
      (hasFlag seg.flags tcpFin → finCount t.hist.out = 1)

theorem heardFrom_admits {t u : Track} {sent : List Emission} {ce : ConnEvent}
    (hsnd : t.hist.out ≠ [] → SndInv t.conn t.hist) (htu : Flow t u) (hut : Flow u t)
    (hsent : ∀ m ∈ sent, m.IsReset ∨ m ∈ t.hist.out) (he : ce.Heard sent) :
    (heardFrom t u).Admits u.conn ce := by
  cases ce with
  | segment now seg data =>
      obtain ⟨m, hm, rfl, rfl⟩ := he
      have hout (hrst : ¬ hasFlag m.parsed.flags tcpRst) : m ∈ t.hist.out :=
        (hsent m hm).resolve_left fun hr ↦ hrst hr.1
      refine ⟨fun htakes ↦ ?_, fun htakes c' _ ↦ ?_⟩
      · have hm := hout htakes.2.1
        refine ⟨hut.ackNum hm htakes.1, fun hsyn ↦ ?_⟩
        exact (((hsnd (List.ne_nil_of_mem hm)).faithful hm (.inl hsyn)).syn hsyn).1
      · have hm := hout htakes.1
        have hsnd := hsnd (List.ne_nil_of_mem hm)
        refine ⟨htu.piece hsnd hm, fun hfin ↦ ?_, fun hfin ↦ ?_⟩
        · obtain ⟨-, hnil, hseq⟩ := (hsnd.faithful hm (.inr hfin)).fin hfin
          refine ⟨(sentBytes t.hist.out).length, ?_, by rw [hnil]; rfl⟩
          rw [add_one, shift_shift]
          exact hseq
        · exact ((hsnd.faithful hm (.inr hfin)).fin hfin).1
  | _ => trivial

namespace Flow

variable {t u : Track}

theorem learns_step {c c' : TcpConnection} {w a : Effect}
    (hact : Act (heardFrom t u) c a c')
    (h : (w.syn = true → c.irs = t.conn.iss) ∧ (w.fin = true → finCount t.hist.out = 1)) :
    ((w + a).syn = true → c'.irs = t.conn.iss) ∧
      ((w + a).fin = true → finCount t.hist.out = 1) := by
  refine ⟨fun hsyn ↦ ?_, fun hfin ↦ ?_⟩
  · rcases hact.irs_cases with ⟨seg, hflag, hack, heq⟩ | ⟨hno, heq⟩
    · exact heq.trans (hack.2 hflag)
    · rw [Effect.add_syn, hno, Bool.or_false] at hsyn
      exact heq.trans (h.1 hsyn)
  · rw [Effect.add_fin, Bool.or_eq_true] at hfin
    rcases hfin with hfin | hfin
    · exact h.2 hfin
    · obtain ⟨seg, payload, hdata, hflag⟩ := hact.fin_cases hfin
      exact hdata.2.2 hflag

theorem receive (h : Flow t u) (hS : (sentBytes t.hist.out).length + 1 < 2 ^ 32)
    {ce : ConnEvent} (hg : (heardFrom t u).Admits u.conn ce) : Flow t (u.step ce) := by
  have hpieces : Guard.Pieces (heardFrom t u) (t.conn.iss + 1) (sentBytes t.hist.out)
      u.received.length := fun _ _ _ hd ↦ ⟨hd.1, hd.2.1⟩
  obtain ⟨hirs, hfin⟩ := Track.step_invariant
    (P := fun c w ↦ (w.syn = true → c.irs = t.conn.iss) ∧
      (w.fin = true → finCount t.hist.out = 1))
    (fun _ _ _ _ hinv hact ↦ learns_step hact hinv) hg ⟨h.irs, h.fin⟩
  obtain ⟨j, hj, huna⟩ := h.una
  exact ⟨Track.rcvInv_step hS hpieces hg h.rcv, hirs, hfin,
    ⟨j, hj.trans (u.taken_step ce), huna⟩,
    fun m hm hp ↦ (h.probes m hm hp).mono (u.received_step ce).length_le⟩

structure Sends (t u : Track) (c : TcpConnection) (w : Effect) : Prop where
  snd : SndInv c w
  iss : c.iss = t.conn.iss
  una : ∃ j ≤ u.taken, c.sndUna = shift t.conn.iss j ∧
    (c.state.handshake = false → c.state ≠ .closed → 1 ≤ j)
  fin : u.hist.fin = true → finCount w.out = 1
  probes : ∀ m ∈ w.out, m.origin = .probe → Passed (t.conn.iss + 1) u.received.length m.seq

theorem Sends.una_step {c c' : TcpConnection} {w a : Effect} (h : Sends t u c w)
    (hact : Act (heardFrom u t) c a c') :
    ∃ j ≤ u.taken, c'.sndUna = shift t.conn.iss j ∧
      (c'.state.handshake = false → c'.state ≠ .closed → 1 ≤ j) := by
  by_cases hack : ∃ seg, (heardFrom u t).ack c seg ∧ c'.sndUna = seg.ackNum
  · obtain ⟨seg, ⟨⟨j, hpos, hj, heq⟩, -⟩, huna⟩ := hack
    exact ⟨j, hj, huna.trans heq, fun _ _ ↦ hpos⟩
  · -- without a new acknowledgement neither `snd_una` nor the handshake moves
    obtain ⟨j, hj, huna, hleft⟩ := h.una
    have hsame : c'.sndUna = c.sndUna := by
      rcases hact.queue_cases with ⟨_, _, -, hsame⟩ | ⟨-, hsame, -⟩ | ⟨-, seg, hg, -, hnew, -⟩
      · exact hsame
      · exact hsame
      · exact absurd ⟨seg, hg, hnew⟩ hack
    refine ⟨j, hj, hsame.trans huna, fun hno hopen ↦ ?_⟩
    obtain ⟨hno, hopen⟩ := (hact.handshake_cases hno hopen).resolve_left hack
    exact hleft hno hopen

/-- The probe repeats the number before `snd_una`, which `u` has passed: as long as
probes are sent there is no FIN that `u` could have taken. -/
theorem Sends.passed {c : TcpConnection} {w : Effect} (h : Sends t u c w)
    (hst : c.state.sends) : Passed (t.conn.iss + 1) u.received.length (c.sndUna - 1) := by
  obtain ⟨j, hj, huna, hleft⟩ := h.una
  have hpos : 1 ≤ j := by
    apply hleft <;> cases hs : c.state <;> simp_all [TcpState.sends, TcpState.handshake]
  have hfin : u.hist.fin = false := by
    by_contra hne
    have hone := h.fin (by simpa using hne)
    have hzero := h.snd.finCount_of_sends hst
    omega
  have htaken : u.taken ≤ 1 + u.received.length := by
    unfold Track.taken
    split_ifs
    · simp [hfin]
    · omega
  obtain ⟨i, rfl⟩ := Nat.exists_eq_add_of_le' hpos
  rw [huna, shift_sub_one]
  cases i with
  | zero =>
      right
      rw [shift_zero]
  | succ i => exact .inl ⟨i, by omega, by rw [add_one, shift_shift, Nat.add_comm 1]⟩

theorem Sends.step {c c' : TcpConnection} {w a : Effect} (h : Sends t u c w)
    (hact : Act (heardFrom u t) c a c') : Sends t u c' (w + a) := by
  refine ⟨h.snd.step hact, hact.iss_eq.trans h.iss, h.una_step hact,
    fun hf ↦ (h.snd.after_fin hact (h.fin hf)).2, fun m hm hp ↦ ?_⟩
  rcases List.mem_append.mp hm with hm | hm
  · exact h.probes m hm hp
  · rcases hact.outbound_cases with ⟨flags, data, hq⟩ | hq
    · rw [hq.out] at hm
      rw [List.mem_singleton.mp hm] at hp
      cases hp
    · rcases (hq.out m hm).2 with ⟨-, hst, -, hseq, -⟩ | ⟨ho, -⟩
      · rw [hseq]
        exact h.passed hst
      · exact absurd hp ho

theorem send (h : Flow t u) (hsnd : SndInv t.conn t.hist) {ce : ConnEvent}
    (hg : (heardFrom u t).Admits t.conn ce) : Flow (t.step ce) u := by
  have hsends : Sends t u (t.step ce).conn (t.step ce).hist :=
    Track.step_invariant (P := Sends t u) (fun _ _ _ _ hinv hact ↦ hinv.step hact) hg
      ⟨hsnd, rfl, h.una, h.fin, h.probes⟩
  have hiss := hsends.iss
  obtain ⟨hgrow, hdone⟩ := Track.sent_step hsnd ce
  refine ⟨⟨h.rcv.1, fun hsyn ↦ ⟨(h.rcv.2 hsyn).1, fun _ ↦ ?_⟩⟩, ?_, hsends.fin, ?_, ?_⟩
  · rw [hiss]
    exact (h.receiving hsyn).mono hgrow fun hf ↦ by rw [(hdone (h.fin hf)).1]
  · rw [hiss]
    exact h.irs
  · rw [hiss]
    exact hsends.una
  · rw [hiss]
    exact hsends.probes

theorem open_receiver (h : Flow t .unborn) (hsnd : SndInv t.conn t.hist) {m : Emission}
    (hm : m ∈ t.hist.out) (hsyn : hasFlag m.flags tcpSyn) (now : Instant) (iss : UInt32)
    (key : ConnectionKey) : Flow t (.passive now iss key m.parsed) := by
  obtain ⟨j, hj, huna⟩ := h.una
  exact ⟨Track.Opened.rcvInv (.inr ⟨now, iss, key, _, rfl⟩),
    fun _ ↦ ((hsnd.faithful hm (.inl hsyn)).syn hsyn).1, nofun,
    ⟨j, hj.trans (Nat.zero_le _), huna⟩, h.probes⟩

theorem open_sender (h : Flow .unborn u) (hsyn : u.hist.syn = false) (now : Instant)
    (iss : UInt32) (key : ConnectionKey) (seg : TcpHeader) :
    Flow (.passive now iss key seg) u := by
  have hun := h.rcv.1 hsyn
  refine ⟨⟨fun _ ↦ hun, fun hs ↦ ?_⟩, fun hs ↦ ?_, fun hf ↦ ?_,
    ⟨0, Nat.zero_le _, (shift_zero _).symm, nofun⟩, fun m hm hp ↦ ?_⟩
  · rw [hsyn] at hs
    cases hs
  · rw [hsyn] at hs
    cases hs
  · rw [hun.fin] at hf
    cases hf
  · rw [List.mem_singleton.mp hm] at hp
    cases hp

end Flow

/-! ## Both directions -/

namespace System

variable {s : System} {x : Side} {e : TableEvent}

/-- The two ends fit together, and nobody has heard of an end that is not open. -/
structure Joined (s : System) : Prop where
  flow : ∀ x, Flow (s.party x) (s.party x.other)
  unheard : ∀ x, s.track x = none → (s.party x.other).hist.syn = false

theorem Joined.of_side (x : Side) (hxy : Flow (s.party x) (s.party x.other))
    (hyx : Flow (s.party x.other) (s.party x))
    (hx : s.track x = none → (s.party x.other).hist.syn = false)
    (hy : s.track x.other = none → (s.party x).hist.syn = false) : Joined s := by
  refine ⟨fun y ↦ ?_, fun y ↦ ?_⟩ <;>
    rcases x.eq_or_eq_other y with rfl | rfl <;> simpa only [Side.other_other]

theorem Joined.of_act {t : Track} (ht : (s.act x e).party x = t)
    (hxy : Flow t (s.party x.other)) (hyx : Flow (s.party x.other) t)
    (hx : (s.act x e).track x = none → (s.party x.other).hist.syn = false)
    (hy : s.track x.other = none → t.hist.syn = false) : Joined (s.act x e) := by
  have htrack : (s.act x e).track x.other = s.track x.other := track_act_of_ne x.other_ne
  have hparty : (s.act x e).party x.other = s.party x.other := by rw [party, htrack, party]
  refine .of_side x ?_ ?_ ?_ ?_
  · rwa [ht, hparty]
  · rwa [ht, hparty]
  · rwa [hparty]
  · rwa [ht, htrack]

theorem Wired.sndInv (hw : Wired s) (hne : (s.party x).hist.out ≠ []) :
    SndInv (s.party x).conn (s.party x).hist := by
  obtain ⟨m, hm⟩ := List.exists_mem_of_ne_nil _ hne
  obtain ⟨t, ht⟩ := exists_track_of_mem hm
  rw [party_of_track ht]
  exact (hw.live x t ht).1.sndInv

theorem syn_of_unborn {t : Track} {ce : ConnEvent}
    (hg : (heardFrom .unborn t).Admits t.conn ce) (hsyn : t.hist.syn = false) :
    (t.step ce).hist.syn = false := by
  refine Track.step_invariant (P := fun _ w ↦ w.syn = false) (fun c c' w a hw hact ↦ ?_) hg hsyn
  rcases hact.irs_cases with ⟨seg, -, ⟨⟨j, hpos, hj, -⟩, -⟩, -⟩ | ⟨hno, -⟩
  · have hzero : Track.unborn.taken = 0 := rfl
    omega
  · rw [Effect.add_syn, hw, hno, Bool.or_false]

theorem Joined.act (hj : Joined s) (hw : Wired s)
    (hS : ∀ y, (sentBytes (s.party y).hist.out).length + 1 < 2 ^ 32)
    (he : e.Heard (s.sent x.other)) (hi : (s.act x e).intact = true) : Joined (s.act x e) := by
  have hxy := hj.flow x
  have hyx := hj.flow x.other
  have hheard := hj.unheard x.other
  rw [Side.other_other] at hyx hheard
  rcases hw.track_act he hi x with heq | ⟨hnone, m, hm, now, iss, hsyn, ht'⟩ |
    ⟨t, ce, ht, hce, ht', -⟩
  · have hsame : (s.act x e).party x = s.party x := by rw [party, heq, party]
    exact .of_act hsame hxy hyx (heq ▸ hj.unheard x) hheard
  · -- the SYN that opens this end comes from the other, which has heard nothing of it yet
    have hclosed := hj.unheard x hnone
    obtain ⟨u, hu⟩ := exists_track_of_mem hm
    rw [party_of_none hnone] at hxy hyx
    refine .of_act (party_of_track ht') (hxy.open_sender hclosed now iss _ _)
      (hyx.open_receiver (hw.sndInv (List.ne_nil_of_mem hm)) hm hsyn now iss _)
      (fun hno ↦ ?_) fun hno ↦ ?_
    · rw [ht'] at hno
      cases hno
    · rw [hu] at hno
      cases hno
  · rw [party_of_track ht] at hxy hyx hheard
    have hg := heardFrom_admits hw.sndInv hyx hxy (hw.sent x.other) hce
    refine .of_act (party_of_track ht') (hxy.send (hw.live x t ht).1.sndInv hg)
      (hyx.receive (hS x.other) hg) (fun hno ↦ ?_) fun hno ↦ ?_
    · rw [ht'] at hno
      cases hno
    · rw [party_of_none hno] at hg
      exact syn_of_unborn hg (hheard hno)

theorem flow_active (now : Instant) (iss : UInt32) (key : ConnectionKey) :
    Flow (.active now iss key) .unborn ∧ Flow .unborn (.active now iss key) := by
  have hnone : RcvInv (iss + 1) (sentBytes (Track.active now iss key).hist.out)
      Track.unborn.conn Track.unborn.hist :=
    ⟨fun _ ↦ ⟨.inr rfl, rfl, rfl, rfl, rfl, nofun, nofun⟩, nofun⟩
  refine ⟨⟨hnone, nofun, nofun, ⟨0, Nat.zero_le _, (shift_zero _).symm, nofun⟩,
    fun m hm hp ↦ ?_⟩, ⟨Track.Opened.rcvInv (.inl ⟨now, iss, key, rfl⟩), nofun, nofun,
      ⟨0, Nat.zero_le _, rfl, fun _ hopen ↦ absurd rfl hopen⟩, nofun⟩⟩
  rw [List.mem_singleton.mp hm] at hp
  cases hp

theorem joined_start (now : Instant) (iss localAddr remoteAddr : UInt32) (remotePort : UInt16) :
    Joined (start now iss localAddr remoteAddr remotePort) := by
  obtain ⟨key, ha⟩ : ∃ key, (start now iss localAddr remoteAddr remotePort).party .a =
      .active now iss key := ⟨_, party_of_track (track_start ..)⟩
  obtain ⟨hab, hba⟩ := flow_active now iss key
  refine .of_side .a ?_ ?_ (fun _ ↦ rfl) fun _ ↦ ?_
  all_goals rw [ha]
  · exact hab
  · exact hba
  · rfl

/-! ## Every run -/

theorem Wired.sent_prefix (hw : Wired s) (x : Side) :
    sentBytes (s.party x).hist.out <+: (s.party x).hist.accepted := by
  cases htr : s.track x with
  | none =>
      rw [party_of_none htr]
      exact List.prefix_refl _
  | some t =>
      rw [party_of_track htr, ← (hw.live x t htr).1.sndInv.pending]
      exact List.prefix_append _ _

theorem Wired.accepted_act (hw : Wired s) (he : e.Heard (s.sent x.other))
    (hi : (s.act x e).intact = true) (y : Side) :
    (s.party y).hist.accepted <+: ((s.act x e).party y).hist.accepted :=
  hw.party_act (R := fun t t' ↦ t.hist.accepted <+: t'.hist.accepted)
    (fun _ ↦ List.prefix_refl _) (fun _ _ _ _ ↦ List.nil_prefix)
    (fun _ _ ↦ List.prefix_append _ _) he hi y

/-- Both directions fit together in every state up to the first removal. -/
theorem Reachable.joined {ok : System → Side → TableEvent → Prop} (h : s.Reachable ok)
    (hi : s.intact = true) (hlen : ∀ x, (s.party x).hist.accepted.length < 2 ^ 32 - 2) :
    Wired s ∧ Joined s := by
  obtain ⟨hw, hj⟩ := h.invariant
    (P := fun s ↦ (∀ x, (s.party x).hist.accepted.length < 2 ^ 32 - 2) → Joined s)
    (fun _ _ _ _ _ _ ↦ joined_start ..)
    (fun s x e _ hw he hi ih hlen ↦ by
      have hlen₀ (y : Side) : (s.party y).hist.accepted.length < 2 ^ 32 - 2 :=
        (hw.accepted_act he hi y).length_le.trans_lt (hlen y)
      refine (ih hlen₀).act hw (fun y ↦ ?_) he hi
      have hle := (hw.sent_prefix y).length_le
      have hlt := hlen₀ y
      omega) hi
  exact ⟨hw, hj hlen⟩

/-- In every state up to the first removal and in each direction, the bytes returned
and buffered by the receiving end are a prefix of those accepted by the sending end;
once the FIN is consumed they are all that was accepted before it was queued. -/
theorem received_prefix_accepted (hs : s.Reached) (hi : s.intact = true)
    (hlen : ∀ x, (s.party x).hist.accepted.length < 2 ^ 32 - 2) (x : Side) :
    (s.party x.other).received <+: (s.party x).hist.accepted ∧
      ((s.party x.other).conn.state ∈
          [TcpState.closeWait, TcpState.closing, TcpState.lastAck, TcpState.timeWait] →
        (s.party x.other).received = (s.party x).beforeFin) := by
  obtain ⟨hw, hj⟩ := Reachable.joined hs hi hlen
  have hflow := hj.flow x
  refine ⟨?_, fun hst ↦ ?_⟩
  · cases hsyn : (s.party x.other).hist.syn with
    | false =>
        have hun := hflow.rcv.1 hsyn
        rw [Track.received, TcpConnection.received, hun.buffer, hun.returned]
        exact List.nil_prefix
    | true => exact (hflow.receiving hsyn).stream.trans (hw.sent_prefix x)
  · -- the state tells that the FIN was consumed, so the other end has sent it
    have hopen : (s.party x.other).conn.state ≠ .closed := by
      intro hc
      simp [hc] at hst
    obtain ⟨u, hu⟩ := exists_track_of_ne fun hun ↦ hopen (congrArg (fun t ↦ t.conn.state) hun)
    rw [party_of_track hu] at hst hopen hflow ⊢
    have hfin : u.hist.fin = true := by
      rw [(hw.live _ u hu).1.fin_eq hopen]
      simp only [List.mem_cons, List.not_mem_nil, or_false] at hst
      rcases hst with hs | hs | hs | hs <;> rw [hs] <;> rfl
    have hone := hflow.fin hfin
    obtain ⟨t, ht⟩ : ∃ t, s.track x = some t := by
      refine exists_track_of_ne fun hun ↦ ?_
      rw [hun] at hone
      cases hone
    rw [party_of_track ht] at hflow hone ⊢
    rw [hflow.received_eq hfin, (hw.live x t ht).1.beforeFin_eq (by simp [Track.finSent, hone])]

/-- The FIN overtakes the data, arrives again behind it and ends the stream. -/
theorem received_prefix_accepted_closeWait :
    ∃ s : System, (s.party .b).conn.state = .closeWait ∧ (s.party .b).received = [1, 2, 3] ∧
      (s.party .b).received <+: (s.party .a).hist.accepted ∧
      (s.party .b).received = (s.party .a).beforeFin := by
  let k : ConnectionKey := ⟨1, 49152, 2, 80⟩
  let s₁ := ((start 0 1000 1 2 80).act .b (.listen 2 80 false)).deliver .b 0 5000 0
  let s₂ := ((s₁.deliver .a 0 0 0).act .a (.send 0 k [1, 2, 3])).act .a (.close 0 k)
  let s₃ := ((s₂.deliver .b 0 0 1).deliver .b 0 0 3).deliver .b 0 0 2
  let s₄ := s₃.deliver .b 0 0 3
  have h₁ : s₁.Reached :=
    ((reachable_start 0 1000 1 2 80).act .b (.listen 2 80 false) trivial trivial).deliver
      .b 0 5000 0 trivial
  have h₂ : s₂.Reached :=
    ((h₁.deliver .a 0 0 0 trivial).act .a (.send 0 k [1, 2, 3]) trivial trivial).act
      .a (.close 0 k) trivial trivial
  have h₄ : s₄.Reached :=
    (((h₂.deliver .b 0 0 1 trivial).deliver .b 0 0 3 trivial).deliver .b 0 0 2 trivial).deliver
      .b 0 0 3 trivial
  have hst : (s₄.party .b).conn.state = .closeWait := by decide +kernel
  have hlen : ∀ x, (s₄.party x).hist.accepted.length < 2 ^ 32 - 2 := by
    intro x
    cases x <;> decide +kernel
  obtain ⟨hpre, hall⟩ := received_prefix_accepted h₄ (by decide +kernel) hlen .a
  exact ⟨s₄, hst, by decide +kernel, hpre, hall (by rw [Side.other, hst]; decide)⟩

end System

end MiniTcp
