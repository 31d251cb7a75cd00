import MiniTcp.Tcp.Drain
import MiniTcp.Tcp.ReceiveBuffer

/-!
# The receiving half on its own

What a segment does to the receiving half of a connection depends on that half alone:
`process_ack` and `flush_send`, which run before and after, do not touch it.  So a result
about `receive_data_and_maybe_fin` is a result about every segment that reaches it.
-/

namespace MiniTcp

open Serial

namespace TcpConnection

variable {c c' : TcpConnection} {seg : TcpHeader} {data : Bytes}

theorem inbound_eq_iff : c'.inbound = c.inbound ↔ c'.irs = c.irs ∧ c'.rcvNxt = c.rcvNxt ∧
    c'.oooBuffer = c.oooBuffer ∧ c'.recvBuffer = c.recvBuffer ∧
    c'.recvBufferCap = c.recvBufferCap := by
  simp only [inbound, Inbound.mk.injEq]

theorem splice_congr (fuel : ℕ) (h : c'.inbound = c.inbound) :
    (splice fuel c').1.inbound = (splice fuel c).1.inbound := by
  induction fuel generalizing c c' with
  | zero => exact h
  | succ fuel ih =>
      obtain ⟨hirs, hnxt, hooo, hbuf, hcap⟩ := inbound_eq_iff.mp h
      rw [splice, splice, hnxt, hooo]
      split
      · exact h
      · apply ih
        rw [inbound_eq_iff]
        simp only [appendInOrder, hirs, hbuf, hcap, and_self]

theorem splice_of_lookup (fuel : ℕ) (h : c.oooBuffer.lookup c.rcvNxt = none) :
    (splice fuel c).1 = c := by
  cases fuel with
  | zero => rfl
  | succ fuel => rw [splice, h]

/-- Splicing moves `rcv_nxt` forwards and keeps it `n` away from the end of the numbers, as
far as what is buffered does. -/
theorem rcvNxt_splice (fuel n : ℕ) (hn : c.rcvNxt.toNat + n < 2 ^ 32)
    (hp : ∀ s d, c.oooBuffer.lookup s = some d → s.toNat + d.length + n < 2 ^ 32) :
    c.rcvNxt.toNat ≤ (splice fuel c).1.rcvNxt.toNat ∧
      (splice fuel c).1.rcvNxt.toNat + n < 2 ^ 32 := by
  induction fuel generalizing c with
  | zero => exact ⟨le_rfl, hn⟩
  | succ fuel ih =>
      rw [splice]
      cases hlook : c.oooBuffer.lookup c.rcvNxt with
      | none => exact ⟨le_rfl, hn⟩
      | some d =>
          have hd := hp _ _ hlook
          have hstep : (shift c.rcvNxt d.length).toNat = c.rcvNxt.toNat + d.length :=
            toNat_shift (by omega)
          have hrest := @ih (appendInOrder d
            { c with oooBuffer := AList.erase c.rcvNxt c.oooBuffer }) ?_ ?_
          · refine ⟨le_trans ?_ hrest.1, hrest.2⟩
            change _ ≤ (shift c.rcvNxt d.length).toNat
            omega
          · change (shift c.rcvNxt d.length).toNat + n < 2 ^ 32
            omega
          · intro s d' hs
            change (AList.erase c.rcvNxt c.oooBuffer).lookup s = some d' at hs
            rw [AssocMap.lookup_erase_eq] at hs
            split_ifs at hs
            exact hp s d' hs

theorem receive_congr (seg : TcpHeader) (data : Bytes) (h : c'.inbound = c.inbound) :
    (c'.receiveDataAndMaybeFin seg data).conn.inbound =
        (c.receiveDataAndMaybeFin seg data).conn.inbound ∧
      (c'.receiveDataAndMaybeFin seg data).fin = (c.receiveDataAndMaybeFin seg data).fin := by
  obtain ⟨hirs, hnxt, hooo, hbuf, hcap⟩ := inbound_eq_iff.mp h
  by_cases heq : seg.seqNum = c.rcvNxt
  · obtain ⟨hconn', hfin'⟩ := receive_of_eq data (heq.trans hnxt.symm)
    obtain ⟨hconn, hfin⟩ := receive_of_eq data heq
    refine ⟨?_, hfin'.trans hfin.symm⟩
    have happ : (c'.appendInOrder data).inbound = (c.appendInOrder data).inbound := by
      rw [inbound_eq_iff]
      simp only [appendInOrder, hirs, hnxt, hooo, hbuf, hcap, and_self]
    have hspl := splice_congr c.oooBuffer.entries.length happ
    rw [hconn', hconn, hooo]
    dsimp only
    split_ifs
    · rw [inbound_eq_iff] at hspl ⊢
      obtain ⟨h₁, h₂, h₃, h₄, h₅⟩ := hspl
      exact ⟨h₁, by rw [h₂], h₃, h₄, h₅⟩
    · exact hspl
  · by_cases hgt : seg.seqNum > c.rcvNxt
    · obtain ⟨hconn', hfin'⟩ := receive_of_gt data (hnxt ▸ heq) (hnxt ▸ hgt)
      obtain ⟨hconn, hfin⟩ := receive_of_gt data heq hgt
      refine ⟨?_, hfin'.trans hfin.symm⟩
      rw [hconn', hconn, bufferedBytes_congr h, hcap]
      split_ifs
      · rw [inbound_eq_iff]
        exact ⟨hirs, hnxt, by rw [hooo], hbuf, rfl⟩
      · exact h
    · obtain ⟨hconn', hfin'⟩ := receive_of_lt data (hnxt ▸ heq) (hnxt ▸ hgt)
      obtain ⟨hconn, hfin⟩ := receive_of_lt data heq hgt
      rw [hconn', hconn]
      exact ⟨h, hfin'.trans hfin.symm⟩

theorem receive_fin_of_not (data : Bytes) (hfin : ¬ hasFlag seg.flags tcpFin) :
    (c.receiveDataAndMaybeFin seg data).fin = false := by
  by_cases heq : seg.seqNum = c.rcvNxt
  · rw [(receive_of_eq data heq).2]
    exact Bool.not_eq_true _ ▸ hfin
  · by_cases hgt : seg.seqNum > c.rcvNxt
    · exact (receive_of_gt data heq hgt).2
    · exact (receive_of_lt data heq hgt).2

theorem flushSend_inbound (now : Instant) (c : TcpConnection) :
    (c.flushSend now).1.inbound = c.inbound := by
  cases hst : c.state.sends with
  | false => rw [flushSend_of_not_sends now hst]
  | true =>
      obtain ⟨c₂, data, hloop, hcases⟩ := flushSend_cases now (sends_iff.mp hst)
      obtain ⟨queue, deadline, heq⟩ := hloop.eq
      rcases hcases with ⟨-, -, hflush⟩ | ⟨-, hflush⟩ <;> rw [hflush, heq] <;> rfl

/-- The FIN of a flush ends the sending, not the receiving. -/
theorem flushSend_receives (now : Instant) (c : TcpConnection) :
    (c.flushSend now).1.state.receives = c.state.receives ∧
      ((c.flushSend now).1.state = .closed → c.state = .closed) := by
  cases hst : c.state.sends with
  | false =>
      rw [flushSend_of_not_sends now hst]
      exact ⟨rfl, id⟩
  | true =>
      obtain ⟨c₂, data, hloop, hcases⟩ := flushSend_cases now (sends_iff.mp hst)
      obtain ⟨queue, deadline, heq⟩ := hloop.eq
      rcases hcases with ⟨-, -, hflush⟩ | ⟨-, hflush⟩
      · rw [hflush]
        rcases sends_iff.mp hst with hs | hs
        · simp [hs, TcpState.receives]
        · simp [hs, TcpState.receives]
      · rw [hflush, heq]
        exact ⟨rfl, id⟩

/-- A segment that reaches the receiving half does to it what `receive_data_and_maybe_fin`
does, and the connection keeps receiving unless it consumed a FIN. -/
theorem processSegment_inbound (now : Instant) (data : Bytes) (hst : c.state.receives)
    (hrst : ¬ hasFlag seg.flags tcpRst) :
    (c.processSegment now seg data).conn.inbound =
        (c.receiveDataAndMaybeFin seg data).conn.inbound ∧
      (c.processSegment now seg data).fin = (c.receiveDataAndMaybeFin seg data).fin ∧
      (c.processSegment now seg data).conn.state.receives =
        !(c.receiveDataAndMaybeFin seg data).fin ∧
      (c.processSegment now seg data).conn.state ≠ .closed := by
  have hcongr := receive_congr seg data (processAck_inbound c seg)
  have hstate : ((c.processAck seg).receiveDataAndMaybeFin seg data).conn.state = c.state := by
    rw [receive_state, processAck_state]
  generalize hr : (c.processAck seg).receiveDataAndMaybeFin seg data = r at hcongr hstate
  unfold processSegment
  rw [if_neg (by simp [hrst]), ← hcongr.1, ← hcongr.2]
  cases hs : c.state with
  | established =>
      unfold establishedSegment
      dsimp only
      rw [hr, flushSend_inbound]
      generalize hc₁ : (if r.fin then { r.conn with state := .closeWait } else r.conn) = c₁
      have hin : c₁.inbound = r.conn.inbound := by
        rw [← hc₁]
        split_ifs <;> rfl
      have hst₁ : c₁.state = if r.fin then .closeWait else .established := by
        rw [← hc₁, ← hs, ← hstate]
        split_ifs <;> rfl
      obtain ⟨hrec, hclosed⟩ := flushSend_receives now c₁
      refine ⟨hin, rfl, ?_, fun h ↦ ?_⟩
      · rw [hrec, hst₁]
        cases r.fin <;> rfl
      · rw [hst₁] at hclosed
        cases hfin : r.fin <;> rw [hfin] at hclosed <;> cases hclosed h
  | finWait1 =>
      unfold finWait1Segment
      dsimp only
      rw [hr]
      generalize (hasFlag seg.flags tcpAck && seg.ackNum == (c.processAck seg).sndNxt) = ours
      rw [hs] at hstate
      cases ours <;> cases hfin : r.fin <;>
        simp [enterTimeWait, inbound, hstate, TcpState.receives]
  | finWait2 =>
      unfold finWait2Segment
      dsimp only
      rw [hr]
      rw [hs] at hstate
      cases hfin : r.fin <;> simp [enterTimeWait, inbound, hstate, TcpState.receives]
  | _ =>
      rw [hs] at hst
      cases hst

end TcpConnection

end MiniTcp
