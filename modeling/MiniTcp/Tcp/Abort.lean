import MiniTcp.Tcp.Diagram

/-!
# What cuts a connection off

A connection that the application has not closed is ended from outside in two ways only: a
RST for it is accepted, or a tick finds its front due and no retry left.  As long as
neither happens it stays in the table, in a state before our FIN.
-/

namespace MiniTcp

/-- The states of a connection that the application has not closed. -/
def TcpState.unclosed : TcpState → Bool
  | .synSent | .synRcvd | .established | .closeWait => true
  | _ => false

namespace TcpConnection

variable {c : TcpConnection} {now : Instant} {e : ConnEvent}

/-- A RST, or a tick without a retry left. -/
def AbortedBy (c : TcpConnection) : ConnEvent → Prop
  | .segment _ seg _ => hasFlag seg.flags tcpRst
  | .tick now => c.state ≠ .timeWait ∧ c.givesUp now
  | _ => False

/-- The application has not closed the connection. -/
def Unclosed (c : TcpConnection) : Prop := c.state.unclosed ∧ c.pendingClose = false

theorem Unclosed.ne_closed (h : c.Unclosed) : c.state ≠ .closed := by
  intro hst
  have hun := h.1
  rw [hst] at hun
  cases hun

theorem Unclosed.ne_timeWait (h : c.Unclosed) : c.state ≠ .timeWait := by
  intro hst
  have hun := h.1
  rw [hst] at hun
  cases hun

/-- Without a deferred close, a flush sends no FIN. -/
theorem flushSend_of_not_pendingClose (now : Instant) (h : c.pendingClose = false) :
    (c.flushSend now).1.state = c.state ∧ (c.flushSend now).1.pendingClose = false := by
  cases hst : c.state.sends with
  | false =>
      rw [flushSend_of_not_sends now hst]
      exact ⟨rfl, h⟩
  | true =>
      obtain ⟨c₂, data, hloop, ⟨hclose, -⟩ | ⟨-, hflush⟩⟩ := flushSend_cases now (sends_iff.mp hst)
      · rw [h] at hclose
        cases hclose
      · obtain ⟨queue, deadline, heq⟩ := hloop.eq
        rw [hflush, heq]
        exact ⟨rfl, h⟩

theorem Unclosed.flushSend (h : c.Unclosed) (now : Instant) : (c.flushSend now).1.Unclosed := by
  obtain ⟨hstate, hclose⟩ := flushSend_of_not_pendingClose now h.2
  exact ⟨hstate ▸ h.1, hclose⟩

theorem Unclosed.processSegment {seg : TcpHeader} {payload : Bytes} (h : c.Unclosed)
    (hrst : ¬ hasFlag seg.flags tcpRst) :
    (c.processSegment now seg payload).conn.Unclosed := by
  have hrec (c₁ : TcpConnection) (hclose : c₁.pendingClose = false) :
      (c₁.receiveDataAndMaybeFin seg payload).conn.pendingClose = false := by
    obtain ⟨nxt, buf, ooo, heq⟩ := receive_eq c₁ seg payload
    rw [heq]
    exact hclose
  have hack : (c.processAck seg).state = c.state ∧ (c.processAck seg).pendingClose = false := by
    obtain ⟨una, queue, wnd, deadline, rto, heq⟩ := processAck_eq c seg
    rw [heq]
    exact ⟨rfl, h.2⟩
  unfold TcpConnection.processSegment
  rw [if_neg fun hr ↦ hrst hr.1]
  cases hs : c.state with
  | synSent =>
      dsimp only
      unfold synSentSegment
      split_ifs
      · exact ⟨rfl, h.2⟩
      · exact h
  | synRcvd =>
      dsimp only
      unfold synRcvdSegment
      dsimp only
      split_ifs
      · exact ⟨rfl, hrec _ h.2⟩
      · refine ⟨?_, hrec _ h.2⟩
        rw [receive_state]
        rfl
      · exact ⟨rfl, h.2⟩
      · exact h
  | established =>
      refine Unclosed.flushSend ?_ now
      split_ifs
      · exact ⟨rfl, hrec _ hack.2⟩
      · refine ⟨?_, hrec _ hack.2⟩
        rw [receive_state, hack.1, hs]
        rfl
  | closeWait =>
      refine Unclosed.flushSend ⟨?_, hack.2⟩ now
      rw [hack.1, hs]
      rfl
  | _ =>
      have hun := h.1
      rw [hs] at hun
      cases hun

theorem Unclosed.tick (h : c.Unclosed) (hup : ¬ c.givesUp now) :
    (c.tick now).1.state = c.state ∧ (c.tick now).1.pendingClose = false := by
  have hopen : (c.tick now).1.state ≠ .closed := by
    intro hclosed
    have hended := (tick_ended_iff h.ne_closed).mp hclosed
    rw [EndedBy, if_neg h.ne_timeWait] at hended
    exact hup hended
  rcases tick_cases now c with ⟨hclosed | ⟨htw, -⟩, -⟩ | ⟨c₂, hstate, -, hclose, htick⟩
  · exact absurd hclosed hopen
  · exact absurd htw h.ne_timeWait
  · obtain ⟨hstate', hclose'⟩ := flushSend_of_not_pendingClose now (hclose.trans h.2)
    rw [htick]
    exact ⟨hstate'.trans hstate, hclose'⟩

theorem Unclosed.step (h : c.Unclosed) (habort : ¬ c.AbortedBy e) (hclose : ∀ now, e ≠ .close now) :
    (c.step e).1.Unclosed := by
  cases e with
  | segment now seg payload => exact h.processSegment habort
  | tick now =>
      obtain ⟨hstate, hpending⟩ := h.tick fun hup ↦ habort ⟨h.ne_timeWait, hup⟩
      exact ⟨hstate ▸ h.1, hpending⟩
  | send now data =>
      exact Unclosed.flushSend (c := { c with sendPending := c.sendPending ++ _ }) h now
  | close now => exact absurd rfl (hclose now)
  | recv | setRecvCap | setSendCap => exact h

theorem Unclosed.closed_of_abortedBy (h : c.Unclosed) (habort : c.AbortedBy e) :
    (c.step e).1.state = .closed ∧ e.cleans = true := by
  cases e with
  | segment now seg payload =>
      have hlisten : c.state ≠ .listen := by
        intro hst
        have hun := h.1
        rw [hst] at hun
        cases hun
      exact ⟨processSegment_of_ended hlisten (.inl habort), rfl⟩
  | tick now =>
      refine ⟨(tick_ended_iff h.ne_closed).mpr ?_, rfl⟩
      rw [EndedBy, if_neg h.ne_timeWait]
      exact habort.2
  | send | recv | close | setRecvCap | setSendCap => cases habort

end TcpConnection

namespace TcpTable

variable {t : TcpTable} {k : ConnectionKey} {c : TcpConnection} {e : TableEvent}

/-- The call aborts the connection under `k`: a RST for it is accepted, or it is given up. -/
def Aborts (k : ConnectionKey) (t : TcpTable) (e : TableEvent) : Prop :=
  ∃ c ce, t.lookup k = some c ∧ e.on k = some ce ∧ c.AbortedBy ce

theorem lookup_of_aborts (hc : t.lookup k = some c) (hun : c.Unclosed) (h : t.Aborts k e) :
    (t.step e).1.lookup k = none := by
  obtain ⟨c₁, ce, hc₁, hon, habort⟩ := h
  obtain rfl := Option.some.inj (hc.symm.trans hc₁)
  obtain ⟨hclosed, hcleans⟩ := hun.closed_of_abortedBy habort
  rw [Option.eq_none_iff_forall_ne_some]
  intro c' hc'
  have hopen := lookup_step_open hc' hon hcleans (by simp [hc])
  rcases lookup_step hc' with ⟨tr, hopened, rfl⟩ | ⟨-, c₂, hc₂, rfl⟩
  · cases TableEvent.opened_cases hopened with
    | segment hseg hkey hnone =>
        rw [hc] at hnone
        cases hnone
    | connect => cases hon
  · obtain rfl := Option.some.inj (hc.symm.trans hc₂)
    rw [hon] at hopen
    exact hopen hclosed

theorem unclosed_after (hc : t.lookup k = some c) (hun : c.Unclosed) (habort : ¬ t.Aborts k e)
    (hclose : ∀ now, e.on k ≠ some (.close now)) : (c.after (e.on k)).Unclosed := by
  cases hon : e.on k with
  | none => exact hun
  | some ce =>
      refine hun.step (fun h ↦ habort ⟨c, ce, hc, hon, h⟩) fun now hce ↦ hclose now ?_
      rw [hon, hce]

end TcpTable

end MiniTcp
