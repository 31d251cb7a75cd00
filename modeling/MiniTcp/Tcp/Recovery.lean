import MiniTcp.Tcp.Integrity

/-!
# Nothing is discarded before it is taken

Where the numbers do not wrap, acknowledgements never run ahead of the receiver, so
the retransmission queue still covers everything from `rcv_nxt` of the other end to
`snd_nxt`.  Together with `send_pending` the sending end holds every byte that the
receiving end has not taken into its stream.
-/

namespace MiniTcp

open Serial TcpConnection

/-! ## What the sending half holds -/

theorem Faithful.covers {iss seq : UInt32} {tx data : Bytes} {fins : ℕ} {flags : UInt8}
    (h : Faithful iss tx fins flags seq data) (hw : iss.toNat + (1 + tx.length + fins) < 2 ^ 32)
    (hpos : 0 < seqLen flags data.length) :
    seq.toNat + seqLen flags data.length = iss.toNat + 1 ∨
      (∃ p, seq.toNat = iss.toNat + 1 + p ∧ seqLen flags data.length = data.length ∧
        p + data.length ≤ tx.length ∧ data <+: tx.drop p) ∨
      hasFlag flags tcpFin ∧ seq.toNat = iss.toNat + 1 + tx.length := by
  cases hfin : hasFlag flags tcpFin with
  | true =>
      obtain ⟨-, -, hseq⟩ := h.fin hfin
      refine .inr (.inr ⟨rfl, ?_⟩)
      rw [hseq, toNat_shift (by omega), Nat.add_assoc]
  | false =>
      cases hsyn : hasFlag flags tcpSyn with
      | true =>
          obtain ⟨rfl, rfl⟩ := h.syn hsyn
          left
          simp [seqLen, hfin, hsyn]
      | false =>
          have hlen : seqLen flags data.length = data.length := by simp [seqLen, hfin, hsyn]
          obtain ⟨p, rfl, hp, hd⟩ := h.carries (List.ne_nil_of_length_pos (hlen ▸ hpos))
          refine .inr (.inl ⟨p, ?_, hlen, List.length_le_of_prefix_drop hp hd, hd⟩)
          rw [toNat_shift (by omega), Nat.add_assoc]

namespace Track

variable {t : Track}

/-- Byte `i` of the accepted stream is held with its value where it belongs: in a
queued segment at its number, or in `send_pending` as far behind `snd_nxt` as it
is in the stream. -/
def Holds (t : Track) (i : ℕ) : Prop :=
  (∃ u ∈ t.conn.retransmitQueue, ∃ j < u.data.length,
      u.seq.toNat + j = t.conn.iss.toNat + 1 + i ∧ u.data[j]? = t.hist.accepted[i]?) ∨
    ∃ j < t.conn.sendPending.length,
      t.conn.sndNxt.toNat + j = t.conn.iss.toNat + 1 + i + t.finSent.toNat ∧
        t.conn.sendPending[j]? = t.hist.accepted[i]?

theorem toNat_finSent (h : SndInv t.conn t.hist) : t.finSent.toNat = finCount t.hist.out := by
  have hle := h.fin_le
  unfold finSent
  rcases Nat.le_one_iff_eq_zero_or_eq_one.mp hle with hfin | hfin <;> rw [hfin] <;> rfl

theorem queue_covers (h : SndInv t.conn t.hist) (hw : t.NoWrap) (hq : QueueAt t.conn) {n : ℕ}
    (hle : t.conn.sndUna.toNat ≤ n) (hlt : n < t.conn.sndNxt.toNat)
    (hn : t.conn.iss.toNat < n) :
    ∃ u ∈ t.conn.retransmitQueue, u.seq.toNat ≤ n ∧
      ((∃ p, u.seq.toNat = t.conn.iss.toNat + 1 + p ∧ n < u.seq.toNat + u.data.length ∧
          p + u.data.length ≤ (sentBytes t.hist.out).length ∧
          u.data <+: (sentBytes t.hist.out).drop p) ∨
        hasFlag u.flags tcpFin ∧
          u.seq.toNat = t.conn.iss.toNat + 1 + (sentBytes t.hist.out).length) := by
  obtain ⟨a, ha, htiles⟩ := hq.tiles
  obtain ⟨u, hu, hlo, hhi⟩ := htiles.cover (ha.trans hle) hlt
  refine ⟨u, hu, hlo, ?_⟩
  rcases (h.queue u hu).1.covers (h.len ▸ hw) (htiles.bounds hu).2.1 with
    hsyn | ⟨p, hseq, hlen, hp, hd⟩ | hfin
  · change u.seq.toNat + u.seqLen = _ at hsyn
    omega
  · change u.seqLen = _ at hlen
    exact .inl ⟨p, hseq, hlen ▸ hhi, hp, hd⟩
  · exact .inr hfin

theorem holds_of_una_le (h : SndInv t.conn t.hist) (hw : t.NoWrap) (hq : QueueAt t.conn) {i : ℕ}
    (hi : i < t.hist.accepted.length) (hle : t.conn.sndUna.toNat ≤ t.conn.iss.toNat + 1 + i) :
    t.Holds i := by
  have hnxt := h.toNat_sndNxt hw
  have hlen := h.len
  rw [Holds, ← h.pending, toNat_finSent h]
  rw [← h.pending, List.length_append] at hi
  by_cases hsent : i < (sentBytes t.hist.out).length
  · -- the byte was sent, so the queue covers its number
    obtain ⟨u, hu, hlo, ⟨p, hseq, hhi, hp, hd⟩ | ⟨-, hseq⟩⟩ :=
      queue_covers h hw hq hle (by omega) (by omega)
    · refine .inl ⟨u, hu, i - p, by omega, by omega, ?_⟩
      have hget := List.getElem?_of_prefix_drop hd (by omega : i - p < u.data.length)
      rw [List.getElem?_append_left hsent, ← hget]
      congr 1
      omega
    · omega
  · refine .inr ⟨i - (sentBytes t.hist.out).length, by omega, by omega, ?_⟩
    rw [List.getElem?_append_right (by omega)]

theorem holds_fin (h : SndInv t.conn t.hist) (hw : t.NoWrap) (hq : QueueAt t.conn)
    (hfin : finCount t.hist.out = 1)
    (hle : t.conn.sndUna.toNat ≤ t.conn.iss.toNat + 1 + (sentBytes t.hist.out).length) :
    ∃ u ∈ t.conn.retransmitQueue, hasFlag u.flags tcpFin ∧
      u.seq.toNat = t.conn.iss.toNat + 1 + (sentBytes t.hist.out).length := by
  have hnxt := h.toNat_sndNxt hw
  have hlen := h.len
  obtain ⟨u, hu, -, ⟨p, hseq, hhi, hp, -⟩ | hflag⟩ :=
    queue_covers h hw hq hle (by omega) (by omega)
  · omega
  · exact ⟨u, hu, hflag⟩

theorem Reachable.not_synSent {g : Guard} (h : t.Reachable g) :
    t.hist.syn = true → t.conn.state ≠ .synSent := by
  refine h.invariant (P := fun c w ↦ w.syn = true → c.state ≠ .synSent) ?_ ?_
  · rintro t (⟨now, iss, key, rfl⟩ | ⟨now, iss, key, seg, rfl⟩) <;> nofun
  · intro c c' w a ih hact hsyn hst
    rcases hact.inbound_cases with ⟨-, hst', -⟩ | ⟨_, _, -, -, -, -, -, -, -, hst'⟩ |
      ⟨hno, -, -, -, -, -, hkeep⟩
    · rw [hst] at hst'
      cases hst'
    · exact hst' hst
    · rw [Effect.add_syn, hno, Bool.or_false] at hsyn
      exact ih hsyn (hkeep hst)

end Track

theorem TcpConnection.flushSend_closed {c : TcpConnection} {now : Instant}
    (h : (c.flushSend now).1.state = .closed) : c.state = .closed := by
  rcases flushSend_state now c with hs | ⟨-, hs | hs⟩
  · exact hs.symm.trans h
  all_goals
    rw [h] at hs
    cases hs

theorem TcpConnection.step_closed (c : TcpConnection) {e : ConnEvent} (he : e.cleans = false)
    (h : (c.step e).1.state = .closed) :
    (c.state = .closed ∨ c.state = .synSent ∨ c.state = .listen) ∧ (c.step e).2.syn = false := by
  cases e with
  | segment | tick => cases he
  | send now data =>
      have hst := flushSend_closed h
      exact ⟨.inl hst, rfl⟩
  | close now =>
      refine ⟨?_, rfl⟩
      change (c.close now).1.state = _ at h
      unfold close at h
      split at h
      · have hst := flushSend_closed h
        exact .inl hst
      · have hst := flushSend_closed h
        exact .inl hst
      · next hs => exact .inr (.inl hs)
      · next hs => exact .inr (.inr hs)
      · exact .inl h
  | recv | setRecvCap | setSendCap => exact ⟨.inl h, rfl⟩

/-! ## Acknowledgements never run ahead -/

theorem SndInv.noWrap {t : Track} (h : SndInv t.conn t.hist)
    (hlt : t.conn.iss.toNat + t.hist.accepted.length + 2 < 2 ^ 32) : t.NoWrap := by
  have hlen := h.len
  have hfin := h.fin_le
  rw [← h.pending, List.length_append] at hlt
  change t.conn.iss.toNat + sentLen t.hist.out < 2 ^ 32
  omega

namespace Flow

variable {t u : Track}

theorem sentAcks_admits (h : Flow t u) (hsnd : SndInv t.conn t.hist) (hw : t.NoWrap)
    {sent : List Emission} {ce : ConnEvent}
    (hsent : ∀ m ∈ sent, m.IsReset ∨ m ∈ u.hist.out) (he : ce.Heard sent) :
    sentAcks.Admits t.conn ce := by
  cases ce with
  | segment now seg data =>
      obtain ⟨m, hm, rfl, rfl⟩ := he
      refine ⟨fun htakes ↦ ?_, fun _ _ _ ↦ trivial⟩
      have hout := (hsent m hm).resolve_left fun hr ↦ htakes.2.1 hr.1
      obtain ⟨j, -, hj, heq⟩ := h.ackNum hout htakes.1
      have hle := hj.trans (h.taken_le hsnd)
      change t.conn.iss.toNat + sentLen t.hist.out < 2 ^ 32 at hw
      change m.packet.hdr.ackNum ≤ t.conn.sndNxt
      rw [heq, hsnd.next, UInt32.le_iff_toNat_le, toNat_shift (by omega), toNat_shift hw]
      omega
  | _ => trivial

theorem toNat_rcvNxt (h : Flow t u) (hsnd : SndInv t.conn t.hist) (hw : t.NoWrap)
    (hsyn : u.hist.syn = true) : u.conn.rcvNxt.toNat = t.conn.iss.toNat + u.taken := by
  have hle := h.taken_le hsnd
  change t.conn.iss.toNat + sentLen t.hist.out < 2 ^ 32 at hw
  have htaken : u.taken = 1 + (u.received.length + u.hist.fin.toNat) := by
    rw [Track.taken, if_pos hsyn, Nat.add_assoc]
  rw [(h.receiving hsyn).next, add_one, shift_shift]
  change (shift t.conn.iss (1 + (u.received.length + u.hist.fin.toNat))).toNat = _
  rw [← htaken, toNat_shift (by omega)]

end Flow

namespace System

variable {s : System} {x : Side} {e : TableEvent} {t u : Track}
  {ok : System → Side → TableEvent → Prop}

/-- An end that is closed and still there never heard of the other, and the end that
was opened by a SYN has. -/
theorem Reachable.closed_or_syn (h : s.Reachable ok) (hi : s.intact = true)
    (ht : s.track x = some t) :
    (t.conn.state = .closed → t.hist.syn = false) ∧ (x = .b → t.hist.syn = true) := by
  refine h.track_invariant (P := fun x t ↦ (t.conn.state = .closed → t.hist.syn = false) ∧
    (x = .b → t.hist.syn = true)) ?_ ?_ ?_ hi ht
  · exact fun _ _ _ ↦ ⟨fun _ ↦ rfl, nofun⟩
  · exact fun _ _ _ _ _ ↦ ⟨nofun, fun _ ↦ rfl⟩
  · intro x t ce hreach hopen ih
    refine ⟨fun hclosed ↦ ?_, fun hx ↦ ?_⟩
    · have hcalls : ce.cleans = false := by
        by_contra hc
        exact hopen (by simpa using hc) hclosed
      obtain ⟨hst, hsyn⟩ := t.conn.step_closed hcalls hclosed
      change (t.hist.syn || (t.conn.step ce).2.syn) = false
      rw [hsyn, Bool.or_false]
      rcases hst with hst | hst | hst
      · exact ih.1 hst
      · by_contra hne
        exact hreach.not_synSent (by simpa using hne) hst
      · exact absurd hst hreach.handshake.1
    · change (t.hist.syn || (t.conn.step ce).2.syn) = true
      rw [ih.2 hx, Bool.true_or]

theorem Wired.span_act (hw : Wired s) (he : e.Heard (s.sent x.other))
    (hi : (s.act x e).intact = true) (y : Side) :
    (s.party y).conn.iss.toNat + (s.party y).hist.accepted.length ≤
      ((s.act x e).party y).conn.iss.toNat + ((s.act x e).party y).hist.accepted.length := by
  have hacc := (hw.accepted_act he hi y).length_le
  have hiss : (s.party y).conn.iss.toNat ≤ ((s.act x e).party y).conn.iss.toNat :=
    hw.party_act (R := fun t t' ↦ t.conn.iss.toNat ≤ t'.conn.iss.toNat) (fun _ ↦ Nat.le_refl _)
      (fun _ _ _ _ ↦ Nat.zero_le _) (fun t ce ↦ by rw [Track.iss_step]) he hi y
  omega

theorem Reachable.sentAcks (h : s.Reachable ok) (hi : s.intact = true)
    (hwrap : ∀ x, (s.party x).conn.iss.toNat + (s.party x).hist.accepted.length + 2 < 2 ^ 32) :
    ∀ x t, s.track x = some t → t.Reachable MiniTcp.sentAcks := by
  refine (h.invariant (P := fun s ↦
    (∀ x, (s.party x).conn.iss.toNat + (s.party x).hist.accepted.length + 2 < 2 ^ 32) →
      ∀ x t, s.track x = some t → t.Reachable MiniTcp.sentAcks) ?_ ?_ hi).2 hwrap
  · intro now iss localAddr remoteAddr remotePort _ x t ht
    cases x with
    | a =>
        obtain rfl := Option.some.inj ((track_start ..).symm.trans ht)
        exact .start (.inl ⟨_, _, _, rfl⟩)
    | b => cases ht
  · intro s x e hreach hw he hi ih hwrap y t ht
    have hwrap₀ (y : Side) :
        (s.party y).conn.iss.toNat + (s.party y).hist.accepted.length + 2 < 2 ^ 32 := by
      have hle := hw.span_act he hi y
      have hlt := hwrap y
      omega
    have ih := ih hwrap₀
    rcases hw.track_act he hi y with heq | ⟨-, m, -, now, iss, -, ht'⟩ |
      ⟨t₀, ce, ht₀, hce, ht', -⟩
    · exact ih y t (heq ▸ ht)
    · obtain rfl := Option.some.inj (ht'.symm.trans ht)
      exact .start (.inr ⟨_, _, _, _, rfl⟩)
    · obtain rfl := Option.some.inj (ht'.symm.trans ht)
      have hsnd := (ih y t₀ ht₀).sndInv
      have hspan := hwrap₀ y
      -- what `t₀` hears was sent by an end that has taken no more than `t₀` has sent
      have hflow := (hreach.joined (intact_of_act hi).1 fun x ↦ by
        have hlt := hwrap₀ x
        omega).2.flow y
      rw [party_of_track ht₀] at hspan hflow
      exact .tail ce (ih y t₀ ht₀)
        (hflow.sentAcks_admits hsnd (hsnd.noWrap hspan) (hw.sent y.other) hce)

/-- Once the sending end is past the handshake, `rcv_nxt` of the receiving end lies
between its `snd_una` and `snd_nxt`, and it holds every byte from that `rcv_nxt` on
and a queued FIN that was not consumed. -/
theorem unreceived_held (hs : s.Reached) (hi : s.intact = true)
    (hwrap : ∀ x, (s.party x).conn.iss.toNat + (s.party x).hist.accepted.length + 2 < 2 ^ 32)
    (ht : s.track x = some t) (hu : s.track x.other = some u)
    (hleft : t.conn.state.handshake = false) :
    t.conn.sndUna ≤ u.conn.rcvNxt ∧ u.conn.rcvNxt ≤ t.conn.sndNxt ∧
      (∀ i < t.hist.accepted.length,
        u.conn.rcvNxt.toNat ≤ t.conn.iss.toNat + 1 + i → t.Holds i) ∧
      (t.finSent → u.hist.fin = false → ∃ v ∈ t.conn.retransmitQueue,
        hasFlag v.flags tcpFin ∧ v.seq.toNat = t.conn.iss.toNat + 1 + t.beforeFin.length) := by
  have hflow := (Reachable.joined hs hi fun x ↦ by
    have hlt := hwrap x
    omega).2.flow x
  have hreach := Reachable.sentAcks hs hi hwrap x t ht
  have hsnd := hreach.sndInv
  have hspan := hwrap x
  rw [party_of_track ht, party_of_track hu] at hflow
  rw [party_of_track ht] at hspan
  have hw := hsnd.noWrap hspan
  have hq := hreach.queueAt sentAcks_acksSent hw
  obtain ⟨j, hj, huna, hpos⟩ := hflow.una
  have hsyn : u.hist.syn = true := by
    cases x with
    | a => exact (Reachable.closed_or_syn hs hi hu).2 rfl
    | b =>
        -- `t` was opened by a SYN, so only an acknowledgement ended its handshake
        have hboth := Reachable.closed_or_syn hs hi ht
        have hopen : t.conn.state ≠ .closed := fun hc ↦ by simp [hboth.1 hc] at hboth
        have hone := hpos hleft hopen
        by_contra hne
        rw [Track.taken, if_neg hne] at hj
        omega
  have htaken := hflow.taken_le hsnd
  have hnext := hflow.toNat_rcvNxt hsnd hw hsyn
  have hnxt := hsnd.toNat_sndNxt hw
  have hunaNat : t.conn.sndUna.toNat = t.conn.iss.toNat + j := by
    change t.conn.iss.toNat + sentLen t.hist.out < 2 ^ 32 at hw
    rw [huna, toNat_shift (by omega)]
  rw [UInt32.le_iff_toNat_le, UInt32.le_iff_toNat_le]
  refine ⟨by omega, by omega, fun i hi hle ↦ ?_, fun hfin hno ↦ ?_⟩
  · exact Track.holds_of_una_le hsnd hw hq hi (by omega)
  · rw [hreach.beforeFin_eq hfin]
    have hone : finCount t.hist.out = 1 := by rw [← Track.toNat_finSent hsnd, hfin]; rfl
    have hle : u.received.length ≤ _ := (hflow.receiving hsyn).stream.length_le
    rw [Track.taken, if_pos hsyn, hno, Bool.toNat_false] at hj
    exact Track.holds_fin hsnd hw hq hone (by omega)

/-- Data and FIN are lost on the way; the sending end holds both. -/
theorem unreceived_held_lost :
    ∃ (s : System) (t u : Track), s.track .a = some t ∧ s.track .b = some u ∧
      t.hist.accepted = [1, 2, 3] ∧ u.received = [] ∧ t.Holds 0 ∧
      ∃ v ∈ t.conn.retransmitQueue,
        hasFlag v.flags tcpFin ∧ v.seq.toNat = t.conn.iss.toNat + 1 + t.beforeFin.length := by
  let k : ConnectionKey := ⟨1, 49152, 2, 80⟩
  let s₁ := ((start 0 1000 1 2 80).act .b (.listen 2 80 false)).deliver .b 0 5000 0
  let s₂ := (s₁.deliver .a 0 0 0).deliver .b 0 0 1
  let s₃ := (s₂.act .a (.send 0 k [1, 2, 3])).act .a (.close 0 k)
  have h₁ : s₁.Reached :=
    ((reachable_start 0 1000 1 2 80).act .b (.listen 2 80 false) trivial trivial).deliver
      .b 0 5000 0 trivial
  have h₃ : s₃.Reached :=
    (((h₁.deliver .a 0 0 0 trivial).deliver .b 0 0 1 trivial).act
      .a (.send 0 k [1, 2, 3]) trivial trivial).act .a (.close 0 k) trivial trivial
  have hwrap : ∀ x, (s₃.party x).conn.iss.toNat + (s₃.party x).hist.accepted.length + 2 <
      2 ^ 32 := by
    intro x
    cases x <;> decide +kernel
  have ha : (s₃.track .a).map (fun t ↦ (t.conn.state, t.conn.iss, t.hist.accepted, t.finSent)) =
      some (.finWait1, 1000, [1, 2, 3], true) := by decide +kernel
  have hb : (s₃.track .b).map (fun u ↦ (u.conn.rcvNxt, u.received, u.hist.fin)) =
      some (1001, [], false) := by decide +kernel
  obtain ⟨t, ht, hta⟩ := Option.map_eq_some_iff.mp ha
  obtain ⟨u, hu, hub⟩ := Option.map_eq_some_iff.mp hb
  simp only [Prod.mk.injEq] at hta hub
  obtain ⟨htst, hiss, hacc, hfin⟩ := hta
  obtain ⟨hnxt, hrec, hno⟩ := hub
  obtain ⟨-, -, hbytes, hlast⟩ := unreceived_held h₃ (by decide +kernel) hwrap ht hu
    (by rw [htst]; rfl)
  refine ⟨s₃, t, u, ht, hu, hacc, hrec, hbytes 0 (by simp [hacc]) ?_, hlast hfin hno⟩
  rw [hnxt, hiss]
  decide

/-- After a removal both sides can be past the handshake and not belong together: `b`
has closed and is removed while `a` waits in TIME_WAIT; the SYN arrives once more and
opens a new connection, whose initial number happens to be the last one that `a` has
acknowledged, so that the last acknowledgement of `a` completes its handshake. -/
theorem exists_una_gt_rcvNxt :
    ∃ (s : System) (t u : Track), s.Reached ∧ s.intact = false ∧
      (∀ x, (s.party x).conn.iss.toNat + (s.party x).hist.accepted.length + 2 < 2 ^ 32) ∧
      s.track .a = some t ∧ s.track .b = some u ∧
      t.conn.state = .timeWait ∧ u.conn.state = .established ∧
      t.conn.sndUna = 1002 ∧ u.conn.rcvNxt = 1001 ∧ ¬ t.conn.sndUna ≤ u.conn.rcvNxt := by
  let ka : ConnectionKey := ⟨1, 49152, 2, 80⟩
  let kb : ConnectionKey := ⟨2, 80, 1, 49152⟩
  let s₁ := ((start 0 1000 1 2 80).act .b (.listen 2 80 false)).deliver .b 0 5000 0
  let s₂ := ((s₁.deliver .a 0 0 0).deliver .b 0 0 1).act .a (.close 0 ka)
  let s₃ := ((s₂.deliver .b 0 0 2).act .b (.close 0 kb)).deliver .a 0 0 2
  let s₄ := ((s₃.deliver .b 0 0 3).deliver .b 0 5001 0).deliver .b 0 0 3
  have h₁ : s₁.Reached :=
    ((reachable_start 0 1000 1 2 80).act .b (.listen 2 80 false) trivial trivial).deliver
      .b 0 5000 0 trivial
  have h₂ : s₂.Reached :=
    ((h₁.deliver .a 0 0 0 trivial).deliver .b 0 0 1 trivial).act .a (.close 0 ka) trivial trivial
  have h₃ : s₃.Reached :=
    ((h₂.deliver .b 0 0 2 trivial).act .b (.close 0 kb) trivial trivial).deliver .a 0 0 2 trivial
  have h₄ : s₄.Reached :=
    ((h₃.deliver .b 0 0 3 trivial).deliver .b 0 5001 0 trivial).deliver .b 0 0 3 trivial
  have hwrap : ∀ x, (s₄.party x).conn.iss.toNat + (s₄.party x).hist.accepted.length + 2 <
      2 ^ 32 := by
    intro x
    cases x <;> decide +kernel
  have ha : (s₄.track .a).map (fun t ↦ (t.conn.state, t.conn.sndUna)) =
      some (.timeWait, 1002) := by decide +kernel
  have hb : (s₄.track .b).map (fun u ↦ (u.conn.state, u.conn.rcvNxt)) =
      some (.established, 1001) := by decide +kernel
  obtain ⟨t, ht, hta⟩ := Option.map_eq_some_iff.mp ha
  obtain ⟨u, hu, hub⟩ := Option.map_eq_some_iff.mp hb
  simp only [Prod.mk.injEq] at hta hub
  refine ⟨s₄, t, u, h₄, by decide +kernel, hwrap, ht, hu, hta.1, hub.1, hta.2, hub.2, ?_⟩
  rw [hta.2, hub.2]
  decide

end System

end MiniTcp
