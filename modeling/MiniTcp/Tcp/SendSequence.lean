import MiniTcp.Tcp.Flush
import MiniTcp.Tcp.Queue

/-!
# `snd_una` and `snd_nxt`

The two ends of the numbers in flight stay in order exactly as long as the peer
acknowledges only what was sent: `process_ack` takes any newer number for
`snd_una`, also one beyond `snd_nxt`.  From such a state the count of bytes in
flight wraps, and no honest acknowledgement repairs it.
-/

namespace MiniTcp

namespace TcpConnection

variable {c : TcpConnection} {seg : TcpHeader} {payload : Bytes} {now : Instant}

theorem toNat_bytesInFlight (h : c.sndUna.toNat ≤ c.sndNxt.toNat) :
    c.bytesInFlight.toNat = c.sndNxt.toNat - c.sndUna.toNat :=
  UInt32.toNat_sub_of_le _ _ (UInt32.le_iff_toNat_le.mpr h)

theorem processAck_all (hack : hasFlag seg.flags tcpAck) (heq : seg.ackNum = c.sndNxt)
    (hle : c.sndUna.toNat ≤ c.sndNxt.toNat) :
    (c.processAck seg).bytesInFlight = 0 ∧ (c.processAck seg).sndWnd = seg.window.toUInt32 := by
  have hother : ¬ seg.ackNum > c.sndUna → c.sndUna = c.sndNxt := by
    intro hnot
    rw [gt_iff_lt, UInt32.lt_iff_toNat_lt, heq] at hnot
    exact UInt32.toNat_inj.mp (by omega)
  unfold processAck
  rw [if_pos hack]
  by_cases hnew : seg.ackNum > c.sndUna
  · rw [if_pos hnew]
    dsimp only
    split_ifs <;> exact ⟨by simp [bytesInFlight, removeAcked, heq], rfl⟩
  · rw [if_neg hnew]
    dsimp only
    split_ifs <;> exact ⟨by simp [bytesInFlight, hother hnew], rfl⟩

/-- A segment in ESTABLISHED or CLOSE_WAIT ends in a flush of the state that
`process_ack` leaves, up to the receiving half. -/
theorem processSegment_flush (now : Instant) (payload : Bytes) (hst : c.state.sends)
    (hrst : ¬ hasFlag seg.flags tcpRst) :
    ∃ c₁ : TcpConnection, c₁.state.sends ∧ c₁.sendPending = c.sendPending ∧
      c₁.pendingClose = c.pendingClose ∧ c₁.sndWnd = (c.processAck seg).sndWnd ∧
      c₁.bytesInFlight = (c.processAck seg).bytesInFlight ∧
      (c.processSegment now seg payload).conn = (c₁.flushSend now).1 := by
  obtain ⟨una, queue, wnd, deadline, rto, hack⟩ := processAck_eq c seg
  unfold processSegment
  rw [if_neg (by simp [hrst])]
  rcases sends_iff.mp hst with hs | hs
  · rw [hs]
    dsimp only
    unfold establishedSegment
    dsimp only
    obtain ⟨nxt, buf, ooo, hrec⟩ := receive_eq (c.processAck seg) seg payload
    refine ⟨_, ?_, ?_, ?_, ?_, ?_, rfl⟩
    all_goals
      split_ifs <;> rw [hrec, hack]
    all_goals first | rfl | exact hst
  · rw [hs]
    exact ⟨c.processAck seg, by rw [hack]; exact hst, by rw [hack], by rw [hack], rfl, rfl, rfl⟩

theorem processSegment_shrinks (hst : c.state.sends) (hne : c.sendPending ≠ [])
    (hle : c.sndUna.toNat ≤ c.sndNxt.toNat) (hack : hasFlag seg.flags tcpAck)
    (hrst : ¬ hasFlag seg.flags tcpRst) (heq : seg.ackNum = c.sndNxt) (hwnd : seg.window ≠ 0) :
    (c.processSegment now seg payload).conn.sendPending.length < c.sendPending.length := by
  obtain ⟨hflight, hw⟩ := processAck_all hack heq hle
  obtain ⟨c₁, hst₁, hpend, -, hwnd₁, hflight₁, hconn⟩ :=
    processSegment_flush now payload hst hrst
  rw [hconn, ← hpend]
  refine flushSend_shrinks now hst₁ (hpend ▸ hne) ?_
  rw [hwnd₁, hflight₁, hflight, hw, UInt32.le_iff_toNat_le]
  have hpos : seg.window.toNat ≠ 0 := fun h ↦ hwnd (UInt16.toNat_inj.mp h)
  simpa using hpos

/-- `snd_una` is beyond `snd_nxt`, and the wrapped count of bytes in flight is larger
than any window the peer can name. -/
structure Stuck (una nxt : UInt32) (pending : Bytes) (c : TcpConnection) : Prop where
  state : c.state.handshake = false
  una : c.sndUna = una
  next : c.sndNxt = nxt
  window : c.sndWnd.toNat ≤ 65535
  pending : pending <+: c.sendPending

end TcpConnection

theorem Act.stuck {g : Guard} {c c' : TcpConnection} {a : Effect} {una nxt : UInt32}
    {pending : Bytes} (hg : Guard.AcksSent g) (hne : pending ≠ []) (hlt : nxt < una)
    (hflight : 65535 ≤ (nxt - una).toNat) (hact : Act g c a c')
    (h : c.Stuck una nxt pending) : c'.Stuck una nxt pending := by
  have hblocked : c.chunkLen = 0 := by
    rw [TcpConnection.chunkLen_eq_zero_iff, TcpConnection.bytesInFlight, h.una, h.next,
      UInt32.le_iff_toNat_le]
    exact .inr (h.window.trans hflight)
  have hpend : c.sendPending ≠ [] := by
    intro hnil
    exact hne (List.prefix_nil.mp (hnil ▸ h.pending))
  obtain ⟨hstate, huna, hnext, hwindow, hpre⟩ := h
  cases hact with
  | synAck hst | finalAck hst => simp [hst, TcpState.handshake] at hstate
  | @ack seg hst hack hg' =>
      -- what was sent lies before `snd_una`, so its acknowledgement looks old
      have hold : ¬ seg.ackNum > c.sndUna := by
        have hle := hg c seg hg'
        rw [hnext, UInt32.le_iff_toNat_le] at hle
        rw [UInt32.lt_iff_toNat_lt] at hlt
        rw [gt_iff_lt, huna, UInt32.lt_iff_toNat_lt]
        omega
      have hwnd : seg.window.toUInt32.toNat ≤ 65535 := by
        have hlt := seg.window.toNat_lt
        simp only [UInt16.toNat_toUInt32]
        omega
      simp only [TcpConnection.processAck, if_pos hack, if_neg hold]
      split_ifs <;> exact ⟨hstate, huna, hnext, hwnd, hpre⟩
  | @receive seg payload s deadline hrec hg' hs =>
      obtain ⟨rcv, buf, ooo, hconn⟩ := TcpConnection.receive_eq c seg payload
      rw [hconn]
      exact ⟨(hs.handshake hrec).1, huna, hnext, hwindow, hpre⟩
  | chunk now hst hpos => exact absurd hblocked hpos
  | sendFin now s hst hempty => exact absurd hempty hpend
  | abort | finAcked => exact ⟨rfl, huna, hnext, hwindow, hpre⟩
  | accept data => exact ⟨hstate, huna, hnext, hwindow, hpre.trans (List.prefix_append _ _)⟩
  | _ => exact ⟨hstate, huna, hnext, hwindow, hpre⟩

namespace Track

variable {t : Track}

/-- As long as the peer acknowledges only what was sent, `snd_una` lies between `iss`
and `snd_nxt`, `flush_send` counts the bytes in flight right, and an acknowledgement
of everything with an open window makes pending data move. -/
theorem sndUna_between (h : t.Reachable sentAcks) (hw : t.NoWrap) :
    t.conn.iss ≤ t.conn.sndUna ∧ t.conn.sndUna ≤ t.conn.sndNxt ∧
      t.conn.bytesInFlight.toNat = t.conn.sndNxt.toNat - t.conn.sndUna.toNat ∧
      ∀ now seg payload, t.conn.state.sends → t.conn.sendPending ≠ [] →
        hasFlag seg.flags tcpAck → ¬ hasFlag seg.flags tcpRst → seg.ackNum = t.conn.sndNxt →
        seg.window ≠ 0 →
        (t.step (.segment now seg payload)).conn.sendPending.length <
          t.conn.sendPending.length := by
  have hq := h.queueAt sentAcks_acksSent hw
  exact ⟨UInt32.le_iff_toNat_le.mpr hq.iss_le, UInt32.le_iff_toNat_le.mpr hq.una_le,
    TcpConnection.toNat_bytesInFlight hq.una_le, fun _ _ _ hst hne hack hrst heq hwnd ↦
      TcpConnection.processSegment_shrinks hst hne hq.una_le hack hrst heq hwnd⟩

theorem sndUna_between_established :
    ∃ t : Track, t.conn.state = .established ∧ t.conn.sendPending = [3, 4] ∧
      t.conn.iss ≤ t.conn.sndUna ∧ t.conn.sndUna ≤ t.conn.sndNxt ∧
      t.conn.bytesInFlight.toNat = t.conn.sndNxt.toNat - t.conn.sndUna.toNat ∧
      ∀ now seg payload, t.conn.state.sends → t.conn.sendPending ≠ [] →
        hasFlag seg.flags tcpAck → ¬ hasFlag seg.flags tcpRst → seg.ackNum = t.conn.sndNxt →
        seg.window ≠ 0 →
        (t.step (.segment now seg payload)).conn.sendPending.length <
          t.conn.sendPending.length := by
  let synAck : TcpHeader := ⟨80, 49152, 500, 1001, 80, tcpSyn ||| tcpAck, 2, 0, 0⟩
  let t₁ := (active 0 1000 ⟨1, 49152, 2, 80⟩).step (.segment 0 synAck [])
  have h : (t₁.step (.send 0 [1, 2, 3, 4])).Reachable sentAcks := by
    refine .tail _ (.tail _ (.start (.inl ⟨_, _, _, rfl⟩)) ?_) (by trivial)
    exact ⟨fun _ ↦ (by decide : (1001 : UInt32) ≤ 1001), fun _ _ _ ↦ trivial⟩
  have hw : (t₁.step (.send 0 [1, 2, 3, 4])).NoWrap := by
    change (_ : ℕ) < _
    decide
  exact ⟨_, by decide, by decide, sndUna_between h hw⟩

/-- One forged acknowledgement of a number not yet sent, and the connection never
sends again, whatever an honest peer acknowledges from then on. -/
theorem exists_stuck :
    ∃ t : Track, t.Reachable {} ∧ t.NoWrap ∧ t.conn.state = .established ∧
      t.conn.sndWnd ≠ 0 ∧ t.conn.sendPending ≠ [] ∧ ¬ t.conn.sndUna ≤ t.conn.sndNxt ∧
      ∀ t' : Track, Run.Reaches (· = t) (fun t e ↦ sentAcks.Admits t.conn e) step t' →
        t'.conn.sndNxt = t.conn.sndNxt ∧ t.conn.sendPending <+: t'.conn.sendPending := by
  let synAck : TcpHeader := ⟨80, 49152, 500, 1001, 80, tcpSyn ||| tcpAck, 1000, 0, 0⟩
  let forged : TcpHeader := ⟨80, 49152, 501, 1006, 80, tcpAck, 1000, 0, 0⟩
  let t₁ := (active 0 1000 ⟨1, 49152, 2, 80⟩).step (.segment 0 synAck [])
  let t₂ := t₁.step (.segment 0 forged [])
  let t₃ := t₂.step (.send 0 [1, 2, 3])
  have h : t₃.Reachable {} := by
    refine .tail _ (.tail _ (.tail _ (.start (.inl ⟨_, _, _, rfl⟩)) ?_) ?_) ?_ <;>
      exact Guard.admits_empty _ _
  have hw : t₃.NoWrap := by
    change (_ : ℕ) < _
    decide
  have hstuck : t₃.conn.Stuck 1006 1001 [1, 2, 3] :=
    ⟨by decide, by decide, by decide, by decide, by decide⟩
  refine ⟨t₃, h, hw, by decide, by decide, by decide, by decide, fun t' ht' ↦ ?_⟩
  have hstuck' : t'.conn.Stuck 1006 1001 [1, 2, 3] :=
    Run.Reaches.invariant (P := fun t : Track ↦ t.conn.Stuck 1006 1001 [1, 2, 3])
      (fun s (hs : s = t₃) ↦ hs ▸ hstuck)
      (fun s e _ he hs ↦ step_invariant (P := fun c _ ↦ c.Stuck 1006 1001 [1, 2, 3])
        (fun _ _ _ _ hs hact ↦ hact.stuck sentAcks_acksSent (by decide) (by decide) (by decide) hs)
        he hs) ht'
  have hpend : t₃.conn.sendPending = [1, 2, 3] := by decide
  exact ⟨hstuck'.next.trans hstuck.next.symm, hpend ▸ hstuck'.pending⟩

end Track

end MiniTcp
