import MiniTcp.Tcp.SendSequence

/-!
# No connection stalls silently

After every tick a connection that owes its peer something has a timer running:
the retransmission timer of a non-empty queue, or the persist timer.  A deferred
close is pending only while data is.
-/

namespace MiniTcp

namespace TcpConnection

variable {c : TcpConnection}

/-! ## The deferred close -/

theorem processSegment_keeps (now : Instant) (seg : TcpHeader) (payload : Bytes)
    (hst : c.state.sends = false) :
    (c.processSegment now seg payload).conn.pendingClose = c.pendingClose ∧
      (c.processSegment now seg payload).conn.sendPending = c.sendPending := by
  obtain ⟨una, queue, wnd, deadline, rto, hack⟩ := processAck_eq c seg
  obtain ⟨nxt, buf, ooo, hrec⟩ := receive_eq (c.processAck seg) seg payload
  rw [hack] at hrec
  unfold processSegment
  split_ifs
  · exact ⟨rfl, rfl⟩
  · cases hs : c.state with
    | established | closeWait => simp [hs, TcpState.sends] at hst
    | closed | listen => exact ⟨rfl, rfl⟩
    | synSent =>
        simp only [synSentSegment]
        split_ifs <;> exact ⟨rfl, rfl⟩
    | synRcvd =>
        simp only [synRcvdSegment]
        split_ifs
        all_goals
          first
            | exact ⟨rfl, rfl⟩
            | (obtain ⟨nxt, buf, ooo, h⟩ := receive_eq
                { removeAcked { c with sndUna := seg.ackNum } seg.ackNum with
                  sndWnd := seg.window.toUInt32, state := .established } seg payload
               rw [h]
               exact ⟨rfl, rfl⟩)
    | finWait1 =>
        simp only [finWait1Segment, enterTimeWait]
        split_ifs <;> rw [hack, hrec] <;> exact ⟨rfl, rfl⟩
    | finWait2 =>
        simp only [finWait2Segment, enterTimeWait]
        split_ifs <;> rw [hack, hrec] <;> exact ⟨rfl, rfl⟩
    | closing =>
        simp only [closingSegment, enterTimeWait]
        split_ifs <;> rw [hack] <;> exact ⟨rfl, rfl⟩
    | lastAck =>
        simp only [lastAckSegment]
        split_ifs <;> rw [hack] <;> exact ⟨rfl, rfl⟩
    | timeWait =>
        simp only [timeWaitSegment]
        split_ifs <;> exact ⟨rfl, rfl⟩

theorem step_pendingClose (e : ConnEvent) (h : c.pendingClose → c.sendPending ≠ [])
    (hclose : (c.step e).1.pendingClose) : (c.step e).1.sendPending ≠ [] := by
  cases e with
  | segment now seg payload =>
      simp only [step] at hclose ⊢
      cases hst : c.state.sends with
      | false =>
          obtain ⟨hc, hp⟩ := processSegment_keeps now seg payload hst
          rw [hc] at hclose
          rw [hp]
          exact h hclose
      | true =>
          by_cases hrst : hasFlag seg.flags tcpRst
          · have hopen : c.state ≠ .closed ∧ c.state ≠ .listen := by
              constructor <;> intro hs <;> simp [hs, TcpState.sends] at hst
            rw [processSegment, if_pos ⟨hrst, hopen⟩] at hclose ⊢
            exact h hclose
          · obtain ⟨c₁, hst₁, -, -, -, -, hconn⟩ := processSegment_flush now payload hst hrst
            rw [hconn] at hclose ⊢
            exact flushSend_pendingClose now (by simp [hst₁]) hclose
  | tick now =>
      simp only [step] at hclose ⊢
      rcases tick_cases now c with ⟨-, hp, hc⟩ | ⟨c₂, -, hp, hc, heq⟩
      · rw [hc] at hclose
        rw [hp]
        exact h hclose
      · rw [heq] at hclose ⊢
        exact flushSend_pendingClose now (fun _ hc₂ ↦ hp ▸ h (hc ▸ hc₂)) hclose
  | send now data =>
      refine flushSend_pendingClose now (fun _ hc ↦ ?_) hclose
      exact List.append_ne_nil_of_left_ne_nil (h hc) _
  | close now =>
      simp only [step, close] at hclose ⊢
      split at hclose
      case h_1 hst | h_2 hst =>
        exact flushSend_pendingClose now (by simp [hst, TcpState.sends]) hclose
      all_goals exact h hclose
  | recv len | setRecvCap cap | setSendCap cap => exact h hclose

end TcpConnection

theorem Act.pendingClose_state {g : Guard} {c c' : TcpConnection} {a : Effect}
    (hact : Act g c a c') (h : c.pendingClose → c.state.sends ∨ c.state = .closed)
    (hclose : c'.pendingClose) : c'.state.sends ∨ c'.state = .closed := by
  cases hact with
  | synAck | finalAck | requestClose => exact .inl (by first | rfl | assumption)
  | @ack seg =>
      obtain ⟨una, queue, wnd, deadline, rto, hack⟩ := TcpConnection.processAck_eq c seg
      rw [hack] at hclose ⊢
      exact h hclose
  | @receive seg payload s deadline hrec _ hs =>
      obtain ⟨nxt, buf, ooo, hconn⟩ := TcpConnection.receive_eq c seg payload
      rw [hconn] at hclose
      have hst : c.state = .established := by
        rcases h hclose with hst | hst
        · rcases TcpConnection.sends_iff.mp hst with hst | hst
          · exact hst
          · simp [hst, TcpState.receives] at hrec
        · simp [hst, TcpState.receives] at hrec
      rw [hst] at hs
      cases hf : (c.receiveDataAndMaybeFin seg payload).fin <;> rw [hf] at hs
      · rcases hs with rfl | ⟨hs, -⟩
        · exact .inl rfl
        · cases hs
      · rcases hs with ⟨-, rfl⟩ | ⟨hs, -⟩ | ⟨hs, -⟩
        · exact .inl rfl
        · cases hs
        · cases hs
  | sendFin => cases hclose
  | abort => exact .inr rfl
  | finAcked deadline hst =>
      rcases h hclose with hs | hs <;> simp [hst, TcpState.sends] at hs
  | _ => exact h hclose

namespace Track

variable {g : Guard} {t : Track}

theorem Reachable.pendingClose (h : t.Reachable g) (hclose : t.conn.pendingClose) :
    t.conn.sendPending ≠ [] ∧ (t.conn.state.sends ∨ t.conn.state = .closed) := by
  refine ⟨?_, h.invariant (P := fun c _ ↦ c.pendingClose → c.state.sends ∨ c.state = .closed)
    ?_ (fun _ _ _ _ hinv hact ↦ hact.pendingClose_state hinv) hclose⟩
  · refine Run.Reaches.invariant
      (P := fun t : Track ↦ t.conn.pendingClose → t.conn.sendPending ≠ [])
      ?_ (fun t e _ _ hinv ↦ TcpConnection.step_pendingClose e hinv) h hclose
    rintro s (⟨now, iss, key, rfl⟩ | ⟨now, iss, key, seg, rfl⟩) hc <;> cases hc
  · rintro s (⟨now, iss, key, rfl⟩ | ⟨now, iss, key, seg, rfl⟩) hc <;> cases hc

end Track

/-! ## After every tick -/

namespace TcpConnection

/-- The connection owes its peer something: an unacknowledged SYN, data or FIN, data
it may send, or a deferred close. -/
def Owes (c : TcpConnection) : Prop :=
  c.sndUna ≠ c.sndNxt ∨
    c.sendPending ≠ [] ∧ (c.state = .established ∨ c.state = .closeWait) ∨ c.pendingClose

def HasTimer (c : TcpConnection) : Prop := c.retransmitQueue ≠ [] ∨ c.probeDeadline.isSome

end TcpConnection

theorem QueueAt.ne_nil {c : TcpConnection} (h : QueueAt c) (hne : c.sndUna ≠ c.sndNxt) :
    c.retransmitQueue ≠ [] := by
  obtain ⟨a, ha, htiles⟩ := h.tiles
  have hle := h.una_le
  intro hnil
  have hend : a = c.sndNxt.toNat := htiles.eq_nil_iff.mp hnil
  exact hne (UInt32.toNat_inj.mp (by omega))

namespace Host

variable {h : Host} {k : ConnectionKey} {t : Track}

theorem tracks_tick {now : Instant} (ht : (h.step (.tick now)).tracks k = some t) :
    t.conn.state ≠ .closed ∧ ∃ t₀, h.tracks k = some t₀ ∧ t = t₀.step (.tick now) := by
  have hlook : (h.table.tick now).1.lookup k = some t.conn := lookup_of_track ht
  refine ⟨by simpa using (AssocMap.lookup_retain_eq_some.mp hlook).2, ?_⟩
  rcases tracks_step ht with hopen | ⟨-, hstep⟩
  · cases hopen
  · exact hstep

/-- After every tick each connection in the table that owes its peer something has a
timer, and a close is deferred only while data is pending. -/
theorem hasTimer_after_tick (hh : h.Reachable sentAcks) (now : Instant) :
    (∀ k t, (h.step (.tick now)).tracks k = some t → t.NoWrap → t.conn.Owes →
        t.conn.HasTimer) ∧
      ∀ k t, h.tracks k = some t → t.conn.pendingClose → t.conn.sendPending ≠ [] := by
  refine ⟨fun k t ht hw howes ↦ ?_, fun k t ht hclose ↦ ((hh.track ht).pendingClose hclose).1⟩
  have hreach : t.Reachable sentAcks :=
    Reachable.track (.tail (.tick now) hh (admits_of_call nofun nofun)) ht
  have hq := hreach.queueAt sentAcks_acksSent hw
  obtain ⟨hopen, t₀, -, rfl⟩ := tracks_tick ht
  have hpending (hst : (t₀.step (.tick now)).conn.state.sends)
      (hne : (t₀.step (.tick now)).conn.sendPending ≠ []) :
      (t₀.step (.tick now)).conn.HasTimer := by
    rcases TcpConnection.tick_live hst hne with hprobe | hflight
    · exact .inr hprobe
    · exact .inl (hq.ne_nil hflight)
  rcases howes with hflight | ⟨hne, hst⟩ | hclose
  · exact .inl (hq.ne_nil hflight)
  · exact hpending (TcpConnection.sends_iff.mpr hst) hne
  · obtain ⟨hne, hst | hst⟩ := hreach.pendingClose hclose
    · exact hpending hst hne
    · exact absurd hst hopen

end Host

/-- A zero window on pending data, and a deferred close behind it. -/
theorem Host.hasTimer_after_tick_zero_window :
    ∃ (h : Host) (k : ConnectionKey) (t : Track),
      (h.step (.tick 0)).tracks k = some t ∧ t.conn.sndWnd = 0 ∧ t.conn.pendingClose = true ∧
        t.conn.HasTimer ∧ t.conn.sendPending ≠ [] := by
  let k : ConnectionKey := ⟨1, 49152, 2, 80⟩
  let synAck : Packet := ⟨2, 1, ⟨80, 49152, 500, 1001, 80, tcpSyn ||| tcpAck, 0, 0, 0⟩, []⟩
  let h₁ : Host := Host.new.step (.connect 0 1000 1 2 80)
  let h₂ := h₁.step (.segment 0 0 synAck.ipHeader synAck.segment)
  let h₃ := (h₂.step (.send 0 k [1, 2, 3])).step (.close 0 k)
  have hsent : (h₁.tracks k).all (fun t ↦ 1001 ≤ t.conn.sndNxt) = true := by decide +kernel
  have hreach : h₃.Reachable sentAcks := by
    refine .tail _ (.tail _ (.tail _ (.tail _ (.start rfl) ?_) ?_) ?_) ?_
    · exact Host.admits_of_call nofun nofun
    · refine Host.admits_segment { synAck.hdr with checksum := synAck.checksum } []
        (by decide +kernel) fun t ht ↦ ⟨fun _ ↦ ?_, fun _ _ _ ↦ trivial⟩
      change h₁.tracks k = some t at ht
      rw [ht] at hsent
      exact (of_decide_eq_true hsent : (1001 : UInt32) ≤ t.conn.sndNxt)
    · exact Host.admits_of_call nofun nofun
    · exact Host.admits_of_call nofun nofun
  have hfacts : ((h₃.step (.tick 0)).tracks k).map (fun t ↦ (t.conn.sndWnd, t.conn.pendingClose,
      t.conn.iss.toNat + sentLen t.hist.out)) = some (0, true, 1001) := by
    decide +kernel
  obtain ⟨t, ht, hval⟩ := Option.map_eq_some_iff.mp hfacts
  simp only [Prod.mk.injEq] at hval
  obtain ⟨hwnd, hclose, hlen⟩ := hval
  have hw : t.NoWrap := by
    change t.conn.iss.toNat + sentLen t.hist.out < 2 ^ 32
    omega
  refine ⟨h₃, k, t, ht, hwnd, hclose,
    (hasTimer_after_tick hreach 0).1 k t ht hw (.inr (.inr hclose)),
    ?_⟩
  exact (hasTimer_after_tick (.tail (.tick 0) hreach (Host.admits_of_call nofun nofun)) 0).2 k t ht
    hclose

end MiniTcp
