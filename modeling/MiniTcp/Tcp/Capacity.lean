import MiniTcp.Tcp.AcceptQueue

/-!
# Buffer capacities

The two capacities of a connection change by their setters alone, and a connection is
opened with the default ones.  So what is asked of the connections of a table stays true
as long as no connection is opened under a key that somebody asks about.
-/

namespace MiniTcp

namespace TcpConnection

variable {c : TcpConnection} {now : Instant} {seg : TcpHeader} {payload : Bytes}

def caps (c : TcpConnection) : ℕ × ℕ := (c.recvBufferCap, c.sendPendingCap)

def defaultCaps : ℕ × ℕ := (defaultRecvBufferCap, defaultSendBufferCap)

/-! ## Only the two setters change the sizes of a connection -/

theorem caps_processAck (c : TcpConnection) (seg : TcpHeader) :
    (c.processAck seg).caps = c.caps := by
  obtain ⟨una, queue, wnd, deadline, rto, h⟩ := processAck_eq c seg
  rw [h]
  rfl

theorem caps_receive (c : TcpConnection) (seg : TcpHeader) (payload : Bytes) :
    (c.receiveDataAndMaybeFin seg payload).conn.caps = c.caps := by
  obtain ⟨nxt, buf, ooo, h⟩ := receive_eq c seg payload
  rw [h]
  rfl

theorem caps_flushSend (now : Instant) (c : TcpConnection) : (c.flushSend now).1.caps = c.caps := by
  cases hst : c.state.sends with
  | false => rw [flushSend_of_not_sends now hst]
  | true =>
      obtain ⟨deadline, harm, -⟩ := armProbe_eq now c
      obtain ⟨queue, nxt, pending, hloop⟩ := flushLoop_eq now c.sendPending.length (c.armProbe now)
      rw [flushSend_of_sends now hst]
      dsimp only
      rw [hloop, harm]
      unfold sendDeferredFin
      dsimp only
      split_ifs
      · split <;> rfl
      · rfl

theorem caps_tick (now : Instant) (c : TcpConnection) : (c.tick now).1.caps = c.caps := by
  obtain ⟨deadline, rto, hprobe⟩ := tickProbe_eq now c
  obtain ⟨queue, hfront⟩ := retransmitFront_eq now (c.tickProbe now).1
  unfold tick
  dsimp only
  split_ifs
  · rfl
  · rfl
  · rw [hprobe]
    rfl
  · rw [caps_flushSend, hfront, hprobe]
    rfl

theorem caps_processSegment (now : Instant) (c : TcpConnection) (seg : TcpHeader)
    (payload : Bytes) : (c.processSegment now seg payload).conn.caps = c.caps := by
  have hreceive : ((c.processAck seg).receiveDataAndMaybeFin seg payload).conn.caps = c.caps :=
    (caps_receive _ _ _).trans (caps_processAck c seg)
  unfold processSegment
  split_ifs
  · rfl
  · split
    · unfold synSentSegment
      dsimp only
      split_ifs <;> rfl
    · unfold synRcvdSegment
      dsimp only
      split_ifs
      · exact caps_receive _ _ _
      · exact caps_receive _ _ _
      · rfl
      · rfl
    · refine (caps_flushSend _ _).trans ?_
      split_ifs <;> exact hreceive
    · unfold finWait1Segment
      dsimp only
      split_ifs <;> exact hreceive
    · unfold finWait2Segment
      dsimp only
      split_ifs <;> exact hreceive
    · unfold closingSegment
      dsimp only
      split_ifs <;> exact caps_processAck c seg
    · exact (caps_flushSend _ _).trans (caps_processAck c seg)
    · unfold lastAckSegment
      dsimp only
      split_ifs <;> exact caps_processAck c seg
    · unfold timeWaitSegment
      split_ifs <;> rfl
    · rfl
    · rfl

theorem caps_close (now : Instant) (c : TcpConnection) : (c.close now).1.caps = c.caps := by
  unfold close
  split
  · exact caps_flushSend ..
  · exact caps_flushSend ..
  · rfl
  · rfl
  · rfl

end TcpConnection

def ConnEvent.SetsCap : ConnEvent → Prop
  | .setRecvCap _ | .setSendCap _ => True
  | _ => False

def TableEvent.SetsCap : TableEvent → Prop
  | .setRecvCap .. | .setSendCap .. => True
  | _ => False

theorem TableEvent.setsCap_of_on {e : TableEvent} {k : ConnectionKey} {ce : ConnEvent}
    (hon : e.on k = some ce) (h : ce.SetsCap) : e.SetsCap := by
  cases on_cases hon with
  | setRecvCap | setSendCap => trivial
  | segment | tick | send | recv | close => exact h

theorem TcpConnection.caps_step {c : TcpConnection} {e : ConnEvent} (h : ¬ e.SetsCap) :
    (c.step e).1.caps = c.caps := by
  cases e with
  | segment now seg payload => exact caps_processSegment now c seg payload
  | tick now => exact caps_tick now c
  | send now data => exact caps_flushSend now _
  | recv len => rfl
  | close now => exact caps_close now c
  | setRecvCap cap | setSendCap cap => exact absurd trivial h

/-! ## The connections of a table -/

namespace TcpTable

variable {t : TcpTable} {e : TableEvent} {k : ConnectionKey} {c : TcpConnection}
  {Want Want' : ConnectionKey → ℕ × ℕ → Prop}

/-- The connections have the sizes `Want` asks for; those on their way to a socket have
the default ones and no socket asks for them yet. -/
structure Sized (Want : ConnectionKey → ℕ × ℕ → Prop) (t : TcpTable) : Prop where
  nodup : t.waiting.Nodup
  apart : ∀ k x, k ∈ t.waiting → ¬ Want k x
  opening : ∀ k c, t.lookup k = some c → c.state = .synRcvd →
    k ∉ t.waiting ∧ (∀ x, ¬ Want k x) ∧ c.caps = TcpConnection.defaultCaps
  queued : ∀ k c, t.lookup k = some c → k ∈ t.waiting → c.caps = TcpConnection.defaultCaps
  agree : ∀ k c x, t.lookup k = some c → Want k x → c.caps = x

theorem Sized.anti (h : t.Sized Want) (hle : ∀ k x, Want' k x → Want k x) : t.Sized Want' where
  nodup := h.nodup
  apart k x hk hw := h.apart k x hk (hle k x hw)
  opening k c hc hst := by
    obtain ⟨hwait, hno, hcaps⟩ := h.opening k c hc hst
    exact ⟨hwait, fun x hw ↦ hno x (hle k x hw), hcaps⟩
  queued := h.queued
  agree k c x hc hw := h.agree k c x hc (hle k x hw)

theorem caps_of_opened {tr : Track} (h : e.opened t k = some tr) :
    tr.conn.caps = TcpConnection.defaultCaps := by
  rcases TableEvent.opened_key h with ⟨now, iss, rfl⟩ | ⟨now, iss, seg, rfl⟩ <;> rfl

theorem Sized.nodup_step (h : t.Sized Want) (e : TableEvent) : (t.step e).1.waiting.Nodup := by
  rcases t.waiting_step e with ⟨k, c, hc, hst, -, -, -, hperm⟩ | ⟨k, -, hperm⟩ | ⟨-, hsame⟩
  · -- what joins the queues was being opened, so it was not waiting
    exact hperm.nodup_iff.mpr (List.nodup_cons.mpr ⟨(h.opening k c hc hst).1, h.nodup⟩)
  · exact (List.nodup_cons.mp (hperm.nodup_iff.mp h.nodup)).2
  · rw [hsame]
    exact h.nodup

/-- A call that sets no size keeps the sizes, if what it opens is nobody's yet. -/
theorem Sized.step (h : t.Sized Want) (hcap : ¬ e.SetsCap)
    (hopen : ∀ k tr, e.opened t k = some tr → k ∉ t.waiting ∧ ∀ x, ¬ Want k x) :
    (t.step e).1.Sized Want := by
  have hafter (k : ConnectionKey) (c : TcpConnection) : (c.after (e.on k)).caps = c.caps := by
    cases hon : e.on k with
    | none => rfl
    | some ce => exact TcpConnection.caps_step fun hce ↦ hcap (TableEvent.setsCap_of_on hon hce)
  have hnew {k : ConnectionKey} {tr : Track} (htr : e.opened t k = some tr) :
      k ∉ (t.step e).1.waiting := by
    intro hk
    rcases mem_waiting_of_step hk with hk | ⟨c, -, -, -, hnone⟩
    · exact (hopen k tr htr).1 hk
    · rw [hnone] at htr
      cases htr
  refine ⟨h.nodup_step e, fun k x hk ↦ ?_, fun k c' hc' hst ↦ ?_, fun k c' hc' hk ↦ ?_,
    fun k c' x hc' hw ↦ ?_⟩
  · rcases mem_waiting_of_step hk with hk | ⟨c, hc, hst, -⟩
    · exact h.apart k x hk
    · exact (h.opening k c hc hst).2.1 x
  · rcases lookup_step hc' with ⟨tr, htr, rfl⟩ | ⟨-, c, hc, rfl⟩
    · exact ⟨hnew htr, (hopen k tr htr).2, caps_of_opened htr⟩
    · obtain ⟨hwait, hno, hcaps⟩ := h.opening k c hc (TcpConnection.synRcvd_of_after hst)
      refine ⟨fun hk ↦ ?_, hno, (hafter k c).trans hcaps⟩
      rcases mem_waiting_of_step hk with hk | ⟨c₁, hc₁, -, hsync, -⟩
      · exact hwait hk
      · obtain rfl := Option.some.inj (hc.symm.trans hc₁)
        rw [hst] at hsync
        cases hsync
  · rcases lookup_step hc' with ⟨tr, htr, rfl⟩ | ⟨-, c, hc, rfl⟩
    · exact absurd hk (hnew htr)
    · rw [hafter]
      rcases mem_waiting_of_step hk with hk | ⟨c₁, hc₁, hst, -⟩
      · exact h.queued k c hc hk
      · exact (h.opening k c hc (by
          obtain rfl := Option.some.inj (hc.symm.trans hc₁)
          exact hst)).2.2
  · rcases lookup_step hc' with ⟨tr, htr, rfl⟩ | ⟨-, c, hc, rfl⟩
    · exact absurd hw ((hopen k tr htr).2 x)
    · rw [hafter]
      exact h.agree k c x hc hw

end TcpTable

end MiniTcp
