import MiniTcp.Tcp.Action

/-!
# What `flush_send` and `tick` leave behind

The window loop runs until the window is used up or nothing is pending, the
persist timer is armed when the window is closed, and a deferred close is carried
out as soon as everything is sent.  A tick that keeps the connection alive ends in
a flush.
-/

namespace MiniTcp

namespace TcpConnection

variable {c : TcpConnection} {now : Instant}

theorem flushLoop_eq (now : Instant) (fuel : ℕ) (c : TcpConnection) : ∃ queue nxt pending,
    (flushLoop now fuel c).1 =
      { c with retransmitQueue := queue, sndNxt := nxt, sendPending := pending } := by
  induction fuel generalizing c with
  | zero => exact ⟨c.retransmitQueue, c.sndNxt, c.sendPending, rfl⟩
  | succ fuel ih =>
      rw [flushLoop]
      split_ifs
      · exact ⟨c.retransmitQueue, c.sndNxt, c.sendPending, rfl⟩
      · obtain ⟨queue, nxt, pending, h⟩ := ih (c.sendChunk now c.chunkLen).1
        exact ⟨queue, nxt, pending, h⟩

theorem length_sendChunk (now : Instant) (n : ℕ) (c : TcpConnection) :
    (c.sendChunk now n).1.sendPending.length = c.sendPending.length - n :=
  List.length_drop

theorem length_flushLoop_le (now : Instant) (fuel : ℕ) (c : TcpConnection) :
    (flushLoop now fuel c).1.sendPending.length ≤ c.sendPending.length := by
  induction fuel generalizing c with
  | zero => exact le_rfl
  | succ fuel ih =>
      rw [flushLoop]
      split_ifs
      · exact le_rfl
      · refine (ih _).trans ?_
        rw [length_sendChunk]
        omega

theorem chunkLen_eq_zero_iff :
    c.chunkLen = 0 ↔ c.sendPending = [] ∨ c.sndWnd ≤ c.bytesInFlight := by
  unfold chunkLen
  dsimp only
  split_ifs with hnil hwnd
  · simp [List.isEmpty_iff.mp hnil]
  · simp [hwnd]
  · rw [List.isEmpty_iff] at hnil
    have hlen := List.length_pos_of_ne_nil hnil
    have havail : 0 < (c.sndWnd - c.bytesInFlight).toNat := by
      rw [ge_iff_le, UInt32.le_iff_toNat_le] at hwnd
      rw [UInt32.toNat_sub_of_le _ _ (by rw [UInt32.le_iff_toNat_le]; omega)]
      omega
    have hmss : 0 < mss := by decide
    simp only [hnil, hwnd, or_self, iff_false]
    omega

theorem chunkLen_flushLoop (now : Instant) (fuel : ℕ) (c : TcpConnection)
    (hfuel : c.sendPending.length ≤ fuel) : (flushLoop now fuel c).1.chunkLen = 0 := by
  induction fuel generalizing c with
  | zero =>
      have hnil : c.sendPending = [] := List.length_eq_zero_iff.mp (by omega)
      exact chunkLen_eq_zero_iff.mpr (.inl hnil)
  | succ fuel ih =>
      rw [flushLoop]
      split_ifs with h
      · exact h
      · refine ih _ ?_
        rw [length_sendChunk]
        omega

theorem armProbe_eq (now : Instant) (c : TcpConnection) : ∃ deadline,
    c.armProbe now = { c with probeDeadline := deadline } ∧
      (c.sndWnd = 0 → c.sendPending ≠ [] → deadline.isSome) := by
  unfold armProbe
  split_ifs with h
  · exact ⟨_, rfl, fun _ _ ↦ rfl⟩
  · exact ⟨c.probeDeadline, rfl, fun h₁ h₂ ↦ absurd ⟨h₁, h₂⟩ h⟩

theorem sendDeferredFin_cases (now : Instant) (hst : c.state.sends) :
    (c.pendingClose ∧ c.sendPending = [] ∧ (c.sendDeferredFin now).1.state.sends = false ∧
        (c.sendDeferredFin now).1.pendingClose = false ∧
        (c.sendDeferredFin now).1.sendPending = []) ∨
      ¬ (c.pendingClose ∧ c.sendPending = []) ∧ c.sendDeferredFin now = (c, []) := by
  unfold sendDeferredFin
  by_cases h : c.pendingClose ∧ c.sendPending = []
  · rw [if_pos h]
    refine .inl ⟨h.1, h.2, ?_⟩
    rcases sends_iff.mp hst with hs | hs <;> rw [hs] <;> exact ⟨rfl, rfl, h.2⟩
  · rw [if_neg h]
    exact .inr ⟨h, rfl⟩

theorem flushSend_of_sends (now : Instant) (hst : c.state.sends) :
    c.flushSend now =
      (let c₂ := flushLoop now c.sendPending.length (c.armProbe now)
      ((c₂.1.sendDeferredFin now).1, c₂.2 ++ (c₂.1.sendDeferredFin now).2)) := by
  obtain ⟨deadline, harm, -⟩ := armProbe_eq now c
  unfold flushSend
  rw [if_pos (sends_iff.mp hst), harm]

theorem flushSend_of_not_sends (now : Instant) (hst : c.state.sends = false) :
    c.flushSend now = (c, []) := by
  unfold flushSend
  rw [if_neg fun h ↦ by simp [sends_iff.mpr h] at hst]

theorem send_of_not_sends (now : Instant) (data : Bytes) (hst : c.state.sends = false) :
    c.send now data = ({ c with sendPending := c.sendPending ++ c.acceptedPrefix data }, []) :=
  flushSend_of_not_sends now hst

/-- The control block after the loop: the window is used up or nothing is pending,
and the persist timer runs if the window is closed on pending data. -/
theorem flushLoop_done (now : Instant) (c : TcpConnection) :
    ∃ c₂, (flushLoop now c.sendPending.length (c.armProbe now)).1 = c₂ ∧ c₂.state = c.state ∧
      c₂.pendingClose = c.pendingClose ∧ c₂.sndUna = c.sndUna ∧ c₂.sndWnd = c.sndWnd ∧
      c₂.chunkLen = 0 ∧ c₂.sendPending.length ≤ c.sendPending.length ∧
      (c₂.sendPending ≠ [] → c.sndWnd = 0 → c₂.probeDeadline.isSome) := by
  obtain ⟨deadline, harm, hprobe⟩ := armProbe_eq now c
  obtain ⟨queue, nxt, pending, hloop⟩ := flushLoop_eq now c.sendPending.length (c.armProbe now)
  have hdone := chunkLen_flushLoop now c.sendPending.length (c.armProbe now) (by rw [harm])
  have hle := length_flushLoop_le now c.sendPending.length (c.armProbe now)
  rw [harm] at hloop hdone hle ⊢
  refine ⟨_, rfl, ?_, ?_, ?_, ?_, hdone, hle, fun hne hwnd ↦ ?_⟩
  all_goals try rw [hloop]
  refine hprobe hwnd fun hnil ↦ hne (List.length_eq_zero_iff.mp ?_)
  change _ ≤ c.sendPending.length at hle
  have hzero := congrArg List.length hnil
  rw [List.length_nil] at hzero
  omega

/-- After a flush, pending data has a timer or waits for an acknowledgement. -/
theorem flushSend_live (now : Instant) (hst : c.state.sends)
    (hst' : (c.flushSend now).1.state.sends) (hne : (c.flushSend now).1.sendPending ≠ []) :
    (c.flushSend now).1.probeDeadline.isSome ∨
      (c.flushSend now).1.sndUna ≠ (c.flushSend now).1.sndNxt := by
  obtain ⟨c₂, hc₂, hstate, -, -, hwnd, hdone, -, hprobe⟩ := flushLoop_done now c
  rw [flushSend_of_sends now hst] at hst' hne ⊢
  dsimp only at hst' hne ⊢
  rw [hc₂] at hst' hne ⊢
  rcases sendDeferredFin_cases now (hstate ▸ hst) with ⟨-, -, hno, -⟩ | ⟨-, heq⟩
  · rw [hno] at hst'
    cases hst'
  · rw [heq] at hne ⊢
    by_cases hzero : c.sndWnd = 0
    · exact .inl (hprobe hne hzero)
    · refine .inr fun heq ↦ ?_
      -- nothing in flight and a window that is open, yet the loop stopped
      rcases chunkLen_eq_zero_iff.mp hdone with hnil | hle
      · exact hne hnil
      · rw [bytesInFlight, ← heq, UInt32.sub_self, hwnd, UInt32.le_iff_toNat_le] at hle
        exact hzero (UInt32.toNat_inj.mp (Nat.le_zero.mp hle))

theorem flushSend_pendingClose (now : Instant)
    (h : c.state.sends = false → c.pendingClose → c.sendPending ≠ [])
    (hclose : (c.flushSend now).1.pendingClose) : (c.flushSend now).1.sendPending ≠ [] := by
  cases hst : c.state.sends with
  | false =>
      rw [flushSend_of_not_sends now hst] at hclose ⊢
      exact h hst hclose
  | true =>
      obtain ⟨c₂, hc₂, hstate, -⟩ := flushLoop_done now c
      rw [flushSend_of_sends now hst] at hclose ⊢
      dsimp only at hclose ⊢
      rw [hc₂] at hclose ⊢
      rcases sendDeferredFin_cases now (hstate ▸ hst) with ⟨-, -, -, hno, -⟩ | ⟨hnot, heq⟩
      · rw [hno] at hclose
        cases hclose
      · rw [heq] at hclose ⊢
        exact fun hnil ↦ hnot ⟨hclose, hnil⟩

theorem flushSend_shrinks (now : Instant) (hst : c.state.sends) (hne : c.sendPending ≠ [])
    (hroom : ¬ c.sndWnd ≤ c.bytesInFlight) :
    (c.flushSend now).1.sendPending.length < c.sendPending.length := by
  have hlen := List.length_pos_of_ne_nil hne
  obtain ⟨deadline, harm, -⟩ := armProbe_eq now c
  have hchunk : (c.armProbe now).chunkLen ≠ 0 := by
    rw [harm, Ne, chunkLen_eq_zero_iff]
    rintro (hnil | hle)
    · exact hne hnil
    · exact hroom hle
  have hloop : (flushLoop now c.sendPending.length (c.armProbe now)).1.sendPending.length <
      c.sendPending.length := by
    obtain ⟨n, hn⟩ := Nat.exists_eq_succ_of_ne_zero (Nat.ne_of_gt hlen)
    have hsame : (c.armProbe now).sendPending = c.sendPending := by rw [harm]
    rw [hn, flushLoop, if_neg hchunk]
    refine lt_of_le_of_lt (length_flushLoop_le now n _) ?_
    rw [length_sendChunk, hsame]
    omega
  rw [flushSend_of_sends now hst]
  obtain ⟨c₂, hc₂, hstate, -⟩ := flushLoop_done now c
  dsimp only
  rw [hc₂] at hloop ⊢
  rcases sendDeferredFin_cases now (hstate ▸ hst) with ⟨-, -, -, -, hnil⟩ | ⟨-, heq⟩
  · rw [hnil]
    exact hlen
  · rw [heq]
    exact hloop

/-! ## What `tick` leaves behind -/

theorem tickProbe_eq (now : Instant) (c : TcpConnection) : ∃ deadline rto,
    (c.tickProbe now).1 = { c with probeDeadline := deadline, probeRto := rto } := by
  unfold tickProbe
  split_ifs
  · split
    · split_ifs <;> exact ⟨_, _, rfl⟩
    · exact ⟨_, _, rfl⟩
  · exact ⟨_, _, rfl⟩

theorem retransmitFront_eq (now : Instant) (c : TcpConnection) : ∃ queue,
    (c.retransmitFront now).1 = { c with retransmitQueue := queue } := by
  unfold retransmitFront
  split
  · exact ⟨_, rfl⟩
  · split_ifs <;> exact ⟨_, rfl⟩

/-- A tick closes the connection, waits in TIME_WAIT, or ends in a flush. -/
theorem tick_cases (now : Instant) (c : TcpConnection) :
    (((c.tick now).1.state = .closed ∨ c.state = .timeWait ∧ (c.tick now).1 = c) ∧
        (c.tick now).1.sendPending = c.sendPending ∧
        (c.tick now).1.pendingClose = c.pendingClose) ∨
      ∃ c₂ : TcpConnection, c₂.state = c.state ∧ c₂.sendPending = c.sendPending ∧
        c₂.pendingClose = c.pendingClose ∧ (c.tick now).1 = (c₂.flushSend now).1 := by
  obtain ⟨deadline, rto, hprobe⟩ := tickProbe_eq now c
  obtain ⟨queue, hfront⟩ := retransmitFront_eq now (c.tickProbe now).1
  unfold tick
  by_cases htw : c.state = .timeWait
  · rw [if_pos htw]
    dsimp only
    split_ifs
    · exact .inl ⟨.inl rfl, rfl, rfl⟩
    · exact .inl ⟨.inr ⟨htw, rfl⟩, rfl, rfl⟩
  · rw [if_neg htw]
    dsimp only
    split_ifs
    · exact .inl ⟨.inl rfl, by rw [hprobe], by rw [hprobe]⟩
    · refine .inr ⟨((c.tickProbe now).1.retransmitFront now).1, ?_, ?_, ?_, rfl⟩ <;>
        rw [hfront, hprobe]

theorem tick_live (hst : (c.tick now).1.state.sends) (hne : (c.tick now).1.sendPending ≠ []) :
    (c.tick now).1.probeDeadline.isSome ∨ (c.tick now).1.sndUna ≠ (c.tick now).1.sndNxt := by
  rcases tick_cases now c with ⟨h | ⟨htw, h⟩, -⟩ | ⟨c₂, -, -, -, h⟩
  · rw [h] at hst
    cases hst
  · rw [h, htw] at hst
    cases hst
  · rw [h] at hst hne ⊢
    cases hs : c₂.state.sends with
    | true => exact flushSend_live now hs hst hne
    | false =>
        rw [flushSend_of_not_sends now hs, hs] at hst
        cases hst

end TcpConnection

end MiniTcp
