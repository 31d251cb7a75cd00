import MiniTcp.Tcp.SilentPeer

/-!
# When a tick does nothing

The event loop ticks as often as it happens to run.  What a connection does depends on
its deadlines and not on that: right after a tick nothing is due, and the next tick
changes something or sends something exactly when a deadline has been reached.
-/

namespace MiniTcp

namespace TcpConnection

variable {c c' : TcpConnection} {now : Instant}

/-- A timer of the connection has run out. -/
def due (now : Instant) (c : TcpConnection) : Bool :=
  if c.state = .timeWait then c.timeWaitDeadline ≤ now
  else c.state.sends && c.probeDeadline.any (· ≤ now) ||
    c.retransmitQueue.head?.any fun u ↦ u.rto ≤ now - u.sentAt

/-! ## The persist timer -/

theorem initialRto_pos : 0 < initialRto := by decide

theorem min_double_pos {rto : Duration} (h : 0 < rto) : 0 < min (rto * 2) maxRto :=
  Nat.lt_min.mpr ⟨Nat.mul_pos h (by decide), by decide⟩

/-- The persist timer runs only while data waits behind a closed window, and its timeout
is never zero. -/
structure Persists (c : TcpConnection) : Prop where
  rto : 0 < c.probeRto
  armed : c.probeDeadline ≠ none → c.sndWnd = 0 ∧ c.sendPending ≠ []
  handshake : c.state.handshake → c.probeDeadline = none

theorem Persists.of_eq (h : c.Persists) (hrto : c'.probeRto = c.probeRto)
    (hdeadline : c'.probeDeadline = c.probeDeadline) (hwnd : c'.sndWnd = c.sndWnd)
    (hpending : c'.sendPending = c.sendPending)
    (hstate : c'.state = c.state ∨ c'.state.handshake = false) : c'.Persists where
  rto := hrto ▸ h.rto
  armed := by
    rw [hdeadline, hwnd, hpending]
    exact h.armed
  handshake hshake := by
    rw [hdeadline]
    rcases hstate with hsame | hleft
    · exact h.handshake (hsame ▸ hshake)
    · rw [hleft] at hshake
      cases hshake

theorem Persists.of_none (h : c.Persists) (hrto : c'.probeRto = c.probeRto)
    (hnone : c'.probeDeadline = none) : c'.Persists :=
  ⟨hrto ▸ h.rto, fun hne ↦ absurd hnone hne, fun _ ↦ hnone⟩

theorem Persists.processAck (h : c.Persists) (seg : TcpHeader) : (c.processAck seg).Persists := by
  have hopened : ∀ c₁ : TcpConnection, c₁.probeDeadline = none → c₁.probeRto = initialRto →
      c₁.Persists := by
    intro c₁ hnone hrto
    exact ⟨hrto ▸ initialRto_pos, fun hne ↦ absurd hnone hne, fun _ ↦ hnone⟩
  unfold TcpConnection.processAck
  dsimp only
  split_ifs with hack hwnd
  · exact hopened _ rfl rfl
  · exact hopened _ rfl rfl
  · exact ⟨h.rto, fun hne ↦ ⟨not_not.mp hwnd, (h.armed hne).2⟩, h.handshake⟩
  · exact ⟨h.rto, fun hne ↦ ⟨not_not.mp hwnd, (h.armed hne).2⟩, h.handshake⟩
  · exact h

theorem Persists.receive (h : c.Persists) (seg : TcpHeader) (payload : Bytes) :
    (c.receiveDataAndMaybeFin seg payload).conn.Persists := by
  obtain ⟨nxt, buf, ooo, heq⟩ := receive_eq c seg payload
  rw [heq]
  exact h.of_eq rfl rfl rfl rfl (.inl rfl)

theorem Persists.armProbe (h : c.Persists) (hst : c.state.sends) (now : Instant) :
    (c.armProbe now).Persists := by
  unfold TcpConnection.armProbe
  split_ifs with harm
  · refine ⟨h.rto, fun _ ↦ harm, fun hshake ↦ ?_⟩
    cases hs : c.state <;> simp_all [TcpState.sends, TcpState.handshake]
  · exact h

/-- A running persist timer means a closed window, and then the loop sends nothing. -/
theorem Persists.flushLoop (h : c.Persists) (now : Instant) (fuel : ℕ) :
    (flushLoop now fuel c).1.Persists := by
  by_cases hnone : c.probeDeadline = none
  · obtain ⟨queue, nxt, pending, hloop⟩ := flushLoop_eq now fuel c
    rw [hloop]
    exact h.of_none rfl hnone
  · have hwnd := (h.armed hnone).1
    have hchunk : c.chunkLen = 0 := by
      rw [chunkLen_eq_zero_iff, hwnd, UInt32.le_iff_toNat_le]
      exact .inr (Nat.zero_le _)
    rwa [flushLoop_of_chunkLen now fuel hchunk]

theorem Persists.sendDeferredFin (h : c.Persists) (now : Instant) :
    (c.sendDeferredFin now).1.Persists := by
  unfold TcpConnection.sendDeferredFin
  split_ifs
  · split
    · exact h.of_eq rfl rfl rfl rfl (.inr rfl)
    · exact h.of_eq rfl rfl rfl rfl (.inr rfl)
    · exact h.of_eq rfl rfl rfl rfl (.inl rfl)
  · exact h

theorem Persists.flushSend (h : c.Persists) (now : Instant) : (c.flushSend now).1.Persists := by
  cases hst : c.state.sends with
  | false => rwa [flushSend_of_not_sends now hst]
  | true =>
      rw [flushSend_of_sends now hst]
      exact ((h.armProbe hst now).flushLoop now _).sendDeferredFin now

theorem Persists.processSegment (h : c.Persists) (now : Instant) (seg : TcpHeader)
    (payload : Bytes) : (c.processSegment now seg payload).conn.Persists := by
  have hack := h.processAck seg
  have hreceive := hack.receive seg payload
  unfold TcpConnection.processSegment
  split_ifs
  · exact h.of_eq rfl rfl rfl rfl (.inr rfl)
  · cases hst : c.state with
    | synSent =>
        have hnone := h.handshake (by rw [hst]; rfl)
        dsimp only [synSentSegment]
        split_ifs
        · exact h.of_none rfl hnone
        · exact h
    | synRcvd =>
        have hnone := h.handshake (by rw [hst]; rfl)
        have hopen : Persists { removeAcked { c with sndUna := seg.ackNum } seg.ackNum
            with sndWnd := seg.window.toUInt32, state := .established } := h.of_none rfl hnone
        dsimp only [synRcvdSegment]
        split_ifs
        · exact (hopen.receive seg payload).of_eq rfl rfl rfl rfl (.inr rfl)
        · exact hopen.receive seg payload
        · exact hopen
        · exact h
    | established =>
        refine Persists.flushSend ?_ now
        split_ifs
        · exact hreceive.of_eq rfl rfl rfl rfl (.inr rfl)
        · exact hreceive
    | finWait1 =>
        dsimp only [finWait1Segment, enterTimeWait]
        split_ifs <;> first | exact hreceive | exact hreceive.of_eq rfl rfl rfl rfl (.inr rfl)
    | finWait2 =>
        dsimp only [finWait2Segment, enterTimeWait]
        split_ifs <;> first | exact hreceive | exact hreceive.of_eq rfl rfl rfl rfl (.inr rfl)
    | closing =>
        dsimp only [closingSegment, enterTimeWait]
        split_ifs <;> first | exact hack | exact hack.of_eq rfl rfl rfl rfl (.inr rfl)
    | closeWait => exact hack.flushSend now
    | lastAck =>
        dsimp only [lastAckSegment]
        split_ifs <;> first | exact hack | exact hack.of_eq rfl rfl rfl rfl (.inr rfl)
    | timeWait =>
        dsimp only [timeWaitSegment]
        split_ifs
        · exact h.of_eq rfl rfl rfl rfl (.inl rfl)
        · exact h
    | closed | listen => exact h

theorem Persists.tickProbe (h : c.Persists) (now : Instant) : (c.tickProbe now).1.Persists := by
  unfold TcpConnection.tickProbe
  split_ifs
  · split
    · next deadline hdeadline =>
        have hne : c.probeDeadline ≠ none := by
          rw [hdeadline]
          exact Option.some_ne_none _
        split_ifs
        · refine ⟨min_double_pos h.rto, fun _ ↦ h.armed hne, fun hshake ↦ ?_⟩
          exact absurd (h.handshake hshake) hne
        · exact h
    · exact h
  · exact h.of_none rfl rfl

theorem Persists.retransmitFront (h : c.Persists) (now : Instant) :
    (c.retransmitFront now).1.Persists := by
  obtain ⟨queue, hfront⟩ := retransmitFront_eq now c
  rw [hfront]
  exact h.of_eq rfl rfl rfl rfl (.inl rfl)

theorem Persists.tick (h : c.Persists) (now : Instant) : (c.tick now).1.Persists := by
  unfold TcpConnection.tick
  by_cases htw : c.state = .timeWait
  · rw [if_pos htw]
    dsimp only
    split_ifs
    · exact h.of_eq rfl rfl rfl rfl (.inr rfl)
    · exact h
  · have hprobe := h.tickProbe now
    rw [if_neg htw]
    dsimp only
    split_ifs
    · exact hprobe.of_eq rfl rfl rfl rfl (.inr rfl)
    · exact (hprobe.retransmitFront now).flushSend now

theorem Persists.step (h : c.Persists) (e : ConnEvent) : (c.step e).1.Persists := by
  cases e with
  | segment now seg payload => exact h.processSegment now seg payload
  | tick now => exact h.tick now
  | send now data =>
      apply Persists.flushSend
      refine ⟨h.rto, fun hne ↦ ?_, h.handshake⟩
      obtain ⟨hwnd, hpending⟩ := h.armed hne
      exact ⟨hwnd, List.append_ne_nil_of_left_ne_nil hpending _⟩
  | close now =>
      change (c.close now).1.Persists
      unfold close
      split
      case h_1 | h_2 =>
        apply Persists.flushSend
        exact h.of_eq rfl rfl rfl rfl (.inl rfl)
      case h_3 | h_4 => exact h.of_eq rfl rfl rfl rfl (.inr rfl)
      case h_5 => exact h
  | recv | setRecvCap | setSendCap => exact h.of_eq rfl rfl rfl rfl (.inl rfl)

/-! ## After a tick -/

/-- Nothing is left to flush, and only a connection that may send has a persist timer. -/
structure Calm (c : TcpConnection) : Prop where
  chunk : c.state.sends → c.chunkLen = 0
  armed : c.state.sends → c.sndWnd = 0 → c.sendPending ≠ [] → c.probeDeadline ≠ none
  disarmed : c.state.sends = false → c.state ≠ .timeWait → c.probeDeadline = none
  fin : c.state.sends → c.pendingClose → c.sendPending ≠ []

theorem Calm.flushSend (h : c.Calm) (now : Instant) : c.flushSend now = (c, []) := by
  cases hst : c.state.sends with
  | false => exact flushSend_of_not_sends now hst
  | true =>
      have harm : c.armProbe now = c := by
        unfold TcpConnection.armProbe
        split_ifs with hclosed
        · obtain ⟨d, hd⟩ := Option.ne_none_iff_exists'.mp (h.armed hst hclosed.1 hclosed.2)
          rw [hd, Option.getD_some, ← hd]
        · rfl
      have hfin : c.sendDeferredFin now = (c, []) := by
        unfold TcpConnection.sendDeferredFin
        rw [if_neg fun hclose ↦ h.fin hst hclose.1 hclose.2]
      rw [flushSend_of_sends now hst, harm, flushLoop_of_chunkLen now _ (h.chunk hst)]
      dsimp only
      rw [hfin]
      rfl

theorem tickProbe_of_not_due (hcalm : c.Calm) (htw : c.state ≠ .timeWait)
    (h : c.state.sends → c.probeDeadline.any (· ≤ now) = false) :
    c.tickProbe now = (c, []) := by
  unfold tickProbe
  cases hst : c.state.sends with
  | true =>
      rw [if_pos (sends_iff.mp hst)]
      cases hd : c.probeDeadline with
      | none => rfl
      | some d =>
          have hlate := h hst
          rw [hd] at hlate
          dsimp only
          rw [if_neg (by simpa using hlate)]
  | false =>
      rw [if_neg fun hs ↦ by simp [sends_iff.mpr hs] at hst]
      have hnone := hcalm.disarmed hst htw
      rw [← hnone]

theorem Calm.tick (h : c.Calm) (hdue : c.due now = false) : c.tick now = (c, []) := by
  unfold due at hdue
  unfold TcpConnection.tick
  by_cases htw : c.state = .timeWait
  · rw [if_pos htw] at hdue ⊢
    rw [if_neg (by simpa using hdue)]
  · rw [if_neg htw] at hdue ⊢
    obtain ⟨hprobe, hfront⟩ := Bool.or_eq_false_iff.mp hdue
    have hsame := tickProbe_of_not_due h htw fun hst ↦ by
      rw [hst] at hprobe
      exact hprobe
    have hqueue : c.givesUp now = false ∧ c.retransmitFront now = (c, []) := by
      unfold givesUp retransmitFront
      cases hq : c.retransmitQueue with
      | nil => exact ⟨rfl, rfl⟩
      | cons front rest =>
          rw [hq] at hfront
          have hlate : ¬ now - front.sentAt ≥ front.rto := by simpa using hfront
          dsimp only
          rw [if_neg hlate]
          exact ⟨by simp [hlate], rfl⟩
    rw [hsame]
    dsimp only
    rw [hqueue.1, if_neg (by decide), hqueue.2, h.flushSend now]
    rfl

theorem mem_tick_of_probe {m : Emission} (htw : c.state ≠ .timeWait)
    (hm : m ∈ (c.tickProbe now).2) : m ∈ (c.tick now).2 := by
  unfold tick
  rw [if_neg htw]
  dsimp only
  split_ifs
  · exact hm
  · exact List.mem_append_left _ (List.mem_append_left _ hm)

/-- A timer that has run out closes the connection or sends. -/
theorem tick_ne_of_due (hopen : c.state ≠ .closed) (hdue : c.due now = true) :
    c.tick now ≠ (c, []) := by
  unfold due at hdue
  intro hsame
  by_cases htw : c.state = .timeWait
  · rw [if_pos htw] at hdue
    unfold tick at hsame
    rw [if_pos htw, if_pos (by simpa using hdue)] at hsame
    exact hopen (congrArg state (Prod.mk.inj hsame).1).symm
  · rw [if_neg htw] at hdue
    have hclosed : (c.tick now).1.state ≠ .closed := by
      rw [hsame]
      exact hopen
    have hsilent : (c.tick now).2 = [] := by rw [hsame]
    rcases Bool.or_eq_true_iff.mp hdue with hprobe | hfront
    · obtain ⟨hst, hlate⟩ := Bool.and_eq_true_iff.mp hprobe
      cases hd : c.probeDeadline with
      | none =>
          rw [hd] at hlate
          cases hlate
      | some d =>
          rw [hd] at hlate
          have hm : ⟨.probe, c.sendSegment tcpAck (c.sndUna - 1) [0]⟩ ∈ (c.tickProbe now).2 := by
            unfold tickProbe
            rw [if_pos (sends_iff.mp hst), hd]
            dsimp only
            rw [if_pos (by simpa using hlate)]
            exact List.mem_singleton_self _
          exact List.ne_nil_of_mem (mem_tick_of_probe htw hm) hsilent
    · cases hq : c.retransmitQueue with
      | nil =>
          rw [hq] at hfront
          cases hfront
      | cons front rest =>
          rw [hq] at hfront
          have hlate : front.rto ≤ now - front.sentAt := by simpa using hfront
          rcases tick_of_due htw hq hlate with ⟨hgone, -⟩ | ⟨hleft, -⟩
          · exact hclosed hgone
          · exact List.ne_nil_of_mem (tick_resends htw hq hlate hleft).1 hsilent

theorem Persists.calm_flushSend (h : c.Persists) (hst : c.state.sends) (now : Instant) :
    (c.flushSend now).1.Calm := by
  have hpersists := h.flushSend now
  have htw : (c.flushSend now).1.state ≠ .timeWait := by
    apply flushSend_timeWait
    intro htw
    rw [htw] at hst
    cases hst
  obtain ⟨c₂, hc₂, hstate, -, -, hwnd, hdone, -, hprobe⟩ := flushLoop_done now c
  rw [flushSend_of_sends now hst] at hpersists htw ⊢
  dsimp only at hpersists htw ⊢
  rw [hc₂] at hpersists htw ⊢
  rcases sendDeferredFin_cases now (hstate ▸ hst) with ⟨-, -, hno, -, hnil⟩ | ⟨hnot, heq⟩
  · refine ⟨fun hs ↦ ?_, fun hs ↦ ?_, fun _ _ ↦ ?_, fun hs ↦ ?_⟩
    · rw [hno] at hs
      cases hs
    · rw [hno] at hs
      cases hs
    · by_contra hne
      exact (hpersists.armed hne).2 hnil
    · rw [hno] at hs
      cases hs
  · rw [heq] at htw ⊢
    refine ⟨fun _ ↦ hdone, fun _ hzero hne ↦ ?_, fun hs ↦ ?_, fun _ hclose hnil ↦ ?_⟩
    · exact Option.isSome_iff_ne_none.mp (hprobe hne (hwnd ▸ hzero))
    · rw [hstate, hst] at hs
      cases hs
    · exact hnot ⟨hclose, hnil⟩

theorem probeDeadline_tickProbe (now : Instant) (hst : c.state.sends = false) :
    (c.tickProbe now).1.probeDeadline = none := by
  unfold tickProbe
  rw [if_neg fun hs ↦ by simp [sends_iff.mpr hs] at hst]

theorem tick_of_open (htw : c.state ≠ .timeWait) (hopen : (c.tick now).1.state ≠ .closed) :
    (c.tick now).1 = (((c.tickProbe now).1.retransmitFront now).1.flushSend now).1 := by
  unfold tick at hopen ⊢
  rw [if_neg htw] at hopen ⊢
  dsimp only at hopen ⊢
  split_ifs at hopen ⊢
  · exact absurd rfl hopen
  · rfl

theorem retransmitFront_probe (now : Instant) (c : TcpConnection) :
    ((c.tickProbe now).1.retransmitFront now).1.state = c.state ∧
      ((c.tickProbe now).1.retransmitFront now).1.probeDeadline =
        (c.tickProbe now).1.probeDeadline := by
  obtain ⟨deadline, rto, hprobe⟩ := tickProbe_eq now c
  obtain ⟨queue, hfront⟩ := retransmitFront_eq now (c.tickProbe now).1
  rw [hfront]
  exact ⟨by rw [hprobe], rfl⟩

theorem Persists.calm_tick (h : c.Persists) (hopen : (c.tick now).1.state ≠ .closed) :
    (c.tick now).1.Calm := by
  by_cases htw : c.state = .timeWait
  · rw [(tick_of_timeWait htw hopen).2]
    refine ⟨fun hs ↦ ?_, fun hs ↦ ?_, fun _ hne ↦ absurd htw hne, fun hs ↦ ?_⟩ <;>
    · rw [htw] at hs
      cases hs
  · obtain ⟨hstate, hdeadline⟩ := retransmitFront_probe now c
    rw [tick_of_open htw hopen]
    cases hst : c.state.sends with
    | true => exact ((h.tickProbe now).retransmitFront now).calm_flushSend (hstate.symm ▸ hst) now
    | false =>
        rw [flushSend_of_not_sends now (hstate.symm ▸ hst)]
        refine ⟨fun hs ↦ ?_, fun hs ↦ ?_, fun _ _ ↦ ?_, fun hs ↦ ?_⟩
        case refine_3 => exact hdeadline.trans (probeDeadline_tickProbe now hst)
        all_goals
          rw [hstate, hst] at hs
          cases hs

theorem lt_probeDeadline_tickProbe (h : c.Persists) {d : Instant}
    (hd : (c.tickProbe now).1.probeDeadline = some d) : now < d := by
  unfold tickProbe at hd
  split_ifs at hd
  · split at hd
    · next deadline hdeadline =>
        split_ifs at hd with hlate
        · obtain rfl := Option.some.inj hd
          exact Nat.lt_add_of_pos_right (min_double_pos h.rto)
        · rw [hdeadline] at hd
          obtain rfl := Option.some.inj hd
          exact Nat.lt_of_not_ge hlate
    · next hnone =>
        rw [hnone] at hd
        cases hd

theorem probeDeadline_flushSend {d : Instant}
    (hd : (c.flushSend now).1.probeDeadline = some d) :
    c.probeDeadline = some d ∨ d = now + initialRto := by
  cases hst : c.state.sends with
  | false =>
      rw [flushSend_of_not_sends now hst] at hd
      exact .inl hd
  | true =>
      have harm : (c.armProbe now).probeDeadline = some d := by
        obtain ⟨queue, nxt, pending, hloop⟩ :=
          flushLoop_eq now c.sendPending.length (c.armProbe now)
        rw [flushSend_of_sends now hst] at hd
        dsimp only [sendDeferredFin] at hd
        rw [hloop] at hd
        split_ifs at hd
        · split at hd <;> exact hd
        · exact hd
      unfold armProbe at harm
      split_ifs at harm
      · cases hold : c.probeDeadline with
        | none =>
            rw [hold] at harm
            exact .inr (Option.some.inj harm).symm
        | some d' =>
            rw [hold] at harm
            exact .inl harm
      · exact .inl harm

theorem front_of_retransmitFront (hrto : ∀ u ∈ c.retransmitQueue, 0 < u.rto) {u : UnackedSegment}
    (hu : (c.retransmitFront now).1.retransmitQueue.head? = some u) :
    now - u.sentAt < u.rto := by
  unfold retransmitFront at hu
  cases hq : c.retransmitQueue with
  | nil =>
      rw [hq] at hu
      dsimp only at hu
      rw [hq] at hu
      cases hu
  | cons front rest =>
      rw [hq] at hu
      dsimp only at hu
      split_ifs at hu with hlate
      · obtain rfl := Option.some.inj hu
        change now - now < min (front.rto * 2) maxRto
        rw [Nat.sub_self]
        exact min_double_pos (hrto front (hq ▸ List.mem_cons_self))
      · rw [hq] at hu
        obtain rfl := Option.some.inj hu
        exact Nat.lt_of_not_ge hlate

/-- A flush puts nothing in front of what is in flight, and what it sends is sent now. -/
theorem front_of_flushSend
    (h : ∀ u, c.retransmitQueue.head? = some u → now - u.sentAt < u.rto) {u : UnackedSegment}
    (hu : (c.flushSend now).1.retransmitQueue.head? = some u) : now - u.sentAt < u.rto := by
  cases hq : c.retransmitQueue with
  | cons front rest =>
      obtain ⟨new, hnew⟩ := (flushSend_queue now c).1
      rw [← hnew, hq] at hu
      exact h u (hq ▸ hu)
  | nil =>
      have htransmits := flushSend_transmits now c
      refine htransmits.forall_queue (P := fun u ↦ now - u.sentAt < u.rto) ?_ ?_ ?_ u
        (List.mem_of_head? hu)
      · rintro u ⟨hsent, hrto, -⟩
        rw [hsent, hrto, Nat.sub_self]
        exact initialRto_pos
      · intro u _ hlt
        change now - now < min (u.rto * 2) maxRto
        rw [Nat.sub_self]
        exact min_double_pos (Nat.zero_lt_of_lt hlt)
      · rw [hq]
        exact fun u hu ↦ (List.not_mem_nil hu).elim

/-- Right after a tick nothing is due. -/
theorem Persists.not_due_tick (h : c.Persists) (hrto : ∀ u ∈ c.retransmitQueue, 0 < u.rto)
    (hopen : (c.tick now).1.state ≠ .closed) : (c.tick now).1.due now = false := by
  by_cases htw : c.state = .timeWait
  · obtain ⟨hlt, hsame⟩ := tick_of_timeWait htw hopen
    rw [hsame, due, if_pos htw]
    simpa using hlt
  · obtain ⟨hstate, hdeadline⟩ := retransmitFront_probe now c
    have hfront (u : UnackedSegment)
        (hu : ((c.tickProbe now).1.retransmitFront now).1.retransmitQueue.head? = some u) :
        now - u.sentAt < u.rto := by
      obtain ⟨deadline, rto, hprobe⟩ := tickProbe_eq now c
      refine front_of_retransmitFront ?_ hu
      rwa [hprobe]
    rw [tick_of_open htw hopen]
    generalize ((c.tickProbe now).1.retransmitFront now).1 = c₂ at hstate hdeadline hfront
    rw [due, if_neg (flushSend_timeWait (hstate.symm ▸ htw)), Bool.or_eq_false_iff,
      Bool.and_eq_false_imp]
    constructor
    · intro _
      cases hd : (c₂.flushSend now).1.probeDeadline with
      | none => rfl
      | some d =>
          have hlt : now < d := by
            rcases probeDeadline_flushSend hd with hold | rfl
            · exact lt_probeDeadline_tickProbe h (hdeadline ▸ hold)
            · exact Nat.lt_add_of_pos_right initialRto_pos
          simpa using hlt
    · cases hu : (c₂.flushSend now).1.retransmitQueue.head? with
      | none => rfl
      | some u => simpa using front_of_flushSend hfront hu

end TcpConnection

theorem Track.Reachable.persists {g : Guard} {t : Track} (h : t.Reachable g) :
    t.conn.Persists := by
  refine Run.Reaches.invariant (P := fun t : Track ↦ t.conn.Persists) ?_ ?_ h
  · rintro t (⟨now, iss, key, rfl⟩ | ⟨now, iss, key, seg, rfl⟩)
    · exact ⟨TcpConnection.initialRto_pos, fun hne ↦ absurd rfl hne, fun _ ↦ rfl⟩
    · exact ⟨TcpConnection.initialRto_pos, fun hne ↦ absurd rfl hne, fun _ ↦ rfl⟩
  · intro t ce _ _ hinv
    exact hinv.step ce

theorem Track.Reachable.rto_pos {g : Guard} {t : Track} (h : t.Reachable g) :
    ∀ u ∈ t.conn.retransmitQueue, 0 < u.rto := by
  refine h.forall_queue (fun now u hu ↦ ?_) fun now u _ hpos ↦ ?_
  · rw [hu.2.1]
    exact TcpConnection.initialRto_pos
  · exact TcpConnection.min_double_pos hpos

theorem TcpTable.tick_eq_self {t : TcpTable} {now : Instant}
    (h : ∀ k c, t.lookup k = some c → c.tick now = (c, []) ∧ c.state ≠ .closed) :
    t.tick now = (t, []) := by
  have hvalue (c : TcpConnection) (hc : c ∈ t.connections.values) :
      c.tick now = (c, []) ∧ c.state ≠ .closed := by
    obtain ⟨k, hk⟩ := AssocMap.mem_values.mp hc
    exact h k c hk
  have hmap : t.connections.mapVals (fun c : TcpConnection ↦ (c.tick now).1) = t.connections :=
    AssocMap.mapVals_eq_self fun c hc ↦ by rw [(hvalue c hc).1]
  have hkeep : t.cleanupClosedConnections = t := by
    unfold TcpTable.cleanupClosedConnections
    rw [AssocMap.retain_eq_self fun c hc ↦ by simpa using (hvalue c hc).2]
  have hsilent : (t.connections.values.flatMap fun c ↦ (c.tick now).2) = [] :=
    List.flatMap_eq_nil_iff.mpr fun c hc ↦ by rw [(hvalue c hc).1]
  unfold TcpTable.tick
  dsimp only
  rw [hmap, hsilent]
  exact congrArg (fun t ↦ (t, [])) hkeep

namespace Host

variable {h : Host}

theorem Reachable.calm_tick (hh : h.Reachable {}) {now : Instant} {k : ConnectionKey} {t : Track}
    (ht : (h.step (.tick now)).tracks k = some t) :
    t.conn.Calm ∧ t.conn.due now = false ∧ t.conn.state ≠ .closed := by
  obtain ⟨hopen, t₀, ht₀, rfl⟩ := tracks_tick ht
  have hreach : t₀.Reachable {} := hh.track ht₀
  exact ⟨hreach.persists.calm_tick hopen, hreach.persists.not_due_tick hreach.rto_pos hopen, hopen⟩

/-- Right after a tick no timer of any connection has run out, and a later tick leaves
the table as it is and sends nothing if and only if none has run out by then. -/
theorem tick_idle_iff (hh : h.Reachable {}) (now now' : Instant) :
    (∀ k t, (h.step (.tick now)).tracks k = some t → t.conn.due now = false) ∧
      ((h.step (.tick now)).table.tick now' = ((h.step (.tick now)).table, []) ↔
        ∀ k t, (h.step (.tick now)).tracks k = some t → t.conn.due now' = false) := by
  refine ⟨fun k t ht ↦ (hh.calm_tick ht).2.1, fun hsame k t ht ↦ ?_, fun hdue ↦ ?_⟩
  · rw [Bool.eq_false_iff]
    intro hdue
    have hlook := lookup_of_track ht
    have hsilent : (t.conn.tick now').2 = [] := by
      refine List.flatMap_eq_nil_iff.mp (congrArg Prod.snd hsame) t.conn ?_
      exact AssocMap.mem_values.mpr ⟨k, hlook⟩
    have hconn : (t.conn.tick now').1 = t.conn := by
      have hafter : ((h.step (.tick now)).table.tick now').1.lookup k = some t.conn := by
        rw [hsame]
        exact hlook
      obtain ⟨hticked, -⟩ := AssocMap.lookup_retain_eq_some.mp hafter
      rw [AssocMap.lookup_mapVals] at hticked
      obtain ⟨c, hc, htick⟩ := Option.map_eq_some_iff.mp hticked
      rw [show c = t.conn from Option.some.inj (hc.symm.trans hlook)] at htick
      exact htick
    exact TcpConnection.tick_ne_of_due (hh.calm_tick ht).2.2 hdue (Prod.ext hconn hsilent)
  · apply TcpTable.tick_eq_self
    intro k c hc
    rw [(h.step (.tick now)).agree] at hc
    obtain ⟨t, ht, rfl⟩ := Option.map_eq_some_iff.mp hc
    obtain ⟨hcalm, -, hopen⟩ := hh.calm_tick ht
    exact ⟨hcalm.tick (hdue k t ht), hopen⟩

/-- Two bytes are in flight since 0; a tick at 499 ms does nothing, one at 500 ms does. -/
theorem tick_idle_iff_sending :
    ∃ h : Host, h.Reachable {} ∧
      (h.step (.tick 0)).table.tick 499999999 = ((h.step (.tick 0)).table, []) ∧
      (h.step (.tick 0)).table.tick 500000000 ≠ ((h.step (.tick 0)).table, []) := by
  let h : Host := connected.step (.send 0 ⟨1, 49152, 2, 80⟩ [1, 2])
  have hh : h.Reachable {} := reachable_connected.call _
  have hfacts : ((h.step (.tick 0)).table.connections.entries.map
      fun e ↦ (e.2.due 499999999, e.2.due 500000000)) = [(false, true)] := by
    decide +kernel
  obtain ⟨e, he, hval⟩ := List.map_eq_singleton_iff.mp hfacts
  obtain ⟨hearly, hlate⟩ := Prod.mk.inj hval
  have hlook {k : ConnectionKey} {t : Track} (ht : (h.step (.tick 0)).tracks k = some t) :
      t.conn = e.2 := by
    have hmem := AssocMap.mem_values.mpr ⟨k, lookup_of_track ht⟩
    rw [AssocMap.values, he] at hmem
    exact List.mem_singleton.mp hmem
  have hsome : ((h.step (.tick 0)).tracks ⟨1, 49152, 2, 80⟩).isSome = true := by
    decide +kernel
  obtain ⟨t, ht⟩ := Option.isSome_iff_exists.mp hsome
  refine ⟨h, hh, (tick_idle_iff hh 0 499999999).2.mpr fun k t ht ↦ ?_, fun hsame ↦ ?_⟩
  · rw [hlook ht]
    exact hearly
  · have hnone := (tick_idle_iff hh 0 500000000).2.mp hsame _ t ht
    rw [hlook ht, hlate] at hnone
    cases hnone

end Host

end MiniTcp
