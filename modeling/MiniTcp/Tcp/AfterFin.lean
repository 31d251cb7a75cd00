import MiniTcp.Tcp.Host
import MiniTcp.Tcp.States

/-!
# What is accepted behind the FIN

`send` does not look at the state.  On a connection whose FIN has been queued it goes on
to take bytes into `send_pending`, and `flush_send` never sends them.  The pending bytes
of such a connection are exactly the ones accepted behind the FIN, so none are left if
`send` is not called there, or only where it takes nothing.
-/

namespace MiniTcp

open Serial

namespace Track

variable {g : Guard} {t : Track} {e : ConnEvent}

/-- Behind the FIN, `send_pending` holds what was accepted since. -/
theorem Reachable.accepted_eq (h : t.Reachable g) (hfin : t.finSent) :
    t.hist.accepted = t.beforeFin ++ t.conn.sendPending := by
  rw [h.beforeFin_eq hfin]
  exact h.sndInv.pending.symm

theorem beforeFin_step (h : t.beforeFin = t.hist.accepted)
    (hnone : t.finSent → (t.conn.step e).2.accepted = []) :
    (t.step e).beforeFin = (t.step e).hist.accepted := by
  change (if t.finSent then t.beforeFin else _) = t.hist.accepted ++ (t.conn.step e).2.accepted
  split_ifs with hfin
  · rw [hnone hfin, List.append_nil]
    exact h
  · rfl

/-- The FIN itself, right behind the bytes that were sent. -/
theorem Reachable.exists_fin (h : t.Reachable g) (hfin : t.conn.state.finSent) :
    ∃ m ∈ t.hist.out, m.queued ∧ hasFlag m.flags tcpFin ∧
      m.seq = shift t.conn.iss (1 + (sentBytes t.hist.out).length) := by
  have hinv := h.sndInv
  have hcount : 0 < finCount t.hist.out := by rw [hinv.finSent hfin]; exact Nat.one_pos
  obtain ⟨m, hm, hflags⟩ := List.countP_pos_iff.mp hcount
  obtain ⟨hqueued, hflag⟩ := Bool.and_eq_true_iff.mp hflags
  refine ⟨m, hm, hqueued, hflag, ?_⟩
  rcases hinv.out m hm with ⟨-, hprobe, -⟩ | ⟨-, hfaithful⟩
  · rw [hprobe] at hflag
    exact absurd hflag (by decide)
  · exact (hfaithful.fin hflag).2.2

end Track

/-- On a connection whose FIN has been queued, `send` is only called with no data or while
`send_pending` is full. -/
def TcpTable.SendsBeforeFin (t : TcpTable) : TableEvent → Prop
  | .send _ key data => ∀ c, t.lookup key = some c → c.state.finSent →
      data = [] ∨ c.sendPendingCap ≤ c.sendPending.length
  | _ => True

theorem TcpConnection.acceptedPrefix_eq_nil_iff {c : TcpConnection} {data : Bytes} :
    c.acceptedPrefix data = [] ↔ data = [] ∨ c.sendPendingCap ≤ c.sendPending.length := by
  rw [acceptedPrefix, List.take_eq_nil_iff]
  constructor
  · rintro (hnone | hnil)
    · rcases Nat.min_eq_zero_iff.mp hnone with hlen | hroom
      · exact .inl (List.length_eq_zero_iff.mp hlen)
      · exact .inr (Nat.sub_eq_zero_iff_le.mp hroom)
    · exact .inl hnil
  · rintro (hnil | hfull)
    · exact .inr hnil
    · exact .inl (Nat.min_eq_zero_iff.mpr (.inr (Nat.sub_eq_zero_iff_le.mpr hfull)))

namespace Host

variable {h : Host} {k : ConnectionKey} {t : Track} {e : TableEvent}

theorem sendResult_of_track (ht : h.tracks k = some t) (data : Bytes) :
    h.table.sendResult k data = (t.conn.acceptedPrefix data).length := by
  rw [TcpTable.sendResult, lookup_of_track ht]

theorem accepted_of_sendsBeforeFin {ce : ConnEvent} (hok : h.table.SendsBeforeFin e)
    (ht : h.tracks k = some t) (hon : e.on k = some ce) (hfin : t.conn.state.finSent) :
    (t.conn.step ce).2.accepted = [] := by
  cases TableEvent.on_cases hon with
  | send now data =>
      exact TcpConnection.acceptedPrefix_eq_nil_iff.mpr (hok t.conn (lookup_of_track ht) hfin)
  | segment | tick | recv | close | setRecvCap | setSendCap => rfl

/-- As long as a connection lives, everything it accepted was accepted before its FIN. -/
theorem beforeFin_eq_accepted
    (hh : Run.Reaches (· = new) (fun h e ↦ h.table.SendsBeforeFin e) step h) :
    ∀ k t, h.tracks k = some t → t.conn.state ≠ .closed → t.beforeFin = t.hist.accepted := by
  refine Run.Reaches.invariant (P := fun h : Host ↦ ∀ k t, h.tracks k = some t →
    t.conn.state ≠ .closed → t.beforeFin = t.hist.accepted) ?_ ?_ hh
  · rintro h rfl k t ht
    cases ht
  · intro h e hrun hok ih k t ht hopen
    rcases tracks_step ht with hopened | ⟨-, t₀, ht₀, rfl⟩
    · rcases TableEvent.opened_key hopened with ⟨now, iss, rfl⟩ | ⟨now, iss, seg, rfl⟩ <;> rfl
    · cases hon : e.on k with
      | none =>
          rw [hon] at hopen
          exact ih k t₀ ht₀ hopen
      | some ce =>
          rw [hon] at hopen
          have hopen₀ : t₀.conn.state ≠ .closed := fun hc ↦ hopen (Track.closed_step t₀ ce hc)
          refine Track.beforeFin_step (ih k t₀ ht₀ hopen₀) fun hfin ↦ ?_
          have hreach := (Reachable.of_reaches hrun).track ht₀
          rw [hreach.finSent_eq hopen₀] at hfin
          exact accepted_of_sendsBeforeFin hok ht₀ hon hfin

/-- Behind the FIN nothing is pending, every accepted byte was sent under a number before
it, and the next `send` returns 0 exactly if it is one the run may go on with. -/
theorem nothing_accepted_after_fin
    (hh : Run.Reaches (· = new) (fun h e ↦ h.table.SendsBeforeFin e) step h)
    (ht : h.tracks k = some t) (hfin : t.conn.state.finSent) :
    t.conn.sendPending = [] ∧ sentBytes t.hist.out = t.hist.accepted ∧
      (∃ m ∈ t.hist.out, m.queued ∧ hasFlag m.flags tcpFin ∧
        m.seq = shift t.conn.iss (1 + t.hist.accepted.length)) ∧
      ∀ now data, h.table.SendsBeforeFin (.send now k data) ↔ h.table.sendResult k data = 0 := by
  have hreach := (Reachable.of_reaches hh).track ht
  have hopen : t.conn.state ≠ .closed := by
    intro hc
    rw [hc] at hfin
    cases hfin
  have hsent : t.finSent := by rw [hreach.finSent_eq hopen]; exact hfin
  have hpending : t.conn.sendPending = [] := by
    have hall := hreach.accepted_eq hsent
    rw [beforeFin_eq_accepted hh k t ht hopen] at hall
    exact List.self_eq_append_right.mp hall
  have hbytes : sentBytes t.hist.out = t.hist.accepted := by
    have hall := hreach.sndInv.pending
    rwa [hpending, List.append_nil] at hall
  have hfinal := hreach.exists_fin hfin
  rw [hbytes] at hfinal
  refine ⟨hpending, hbytes, hfinal, fun now data ↦ ?_⟩
  rw [sendResult_of_track ht, List.length_eq_zero_iff, TcpConnection.acceptedPrefix_eq_nil_iff]
  constructor
  · exact fun hok ↦ hok t.conn (lookup_of_track ht) hfin
  · intro hnone c hc _
    obtain rfl := Option.some.inj ((lookup_of_track ht).symm.trans hc)
    exact hnone

/-- The connection sends `[1, 2]` and is closed. -/
def closing : Host :=
  (connected.step (.send 0 ⟨1, 49152, 2, 80⟩ [1, 2])).step (.close 0 ⟨1, 49152, 2, 80⟩)

theorem nothing_accepted_after_fin_finWait1 :
    ∃ t, closing.tracks ⟨1, 49152, 2, 80⟩ = some t ∧ t.conn.state = .finWait1 ∧
      t.conn.sendPending = [] ∧ sentBytes t.hist.out = [1, 2] := by
  have hrun : Run.Reaches (· = new) (fun h e ↦ h.table.SendsBeforeFin e) step closing := by
    refine .tail _ (.tail _ (.tail _ (.tail _ (.start rfl) trivial) trivial) ?_) trivial
    intro c hc hfin
    have hstate : (connected.table.lookup ⟨1, 49152, 2, 80⟩).map TcpConnection.state =
        some .established := by
      decide +kernel
    rw [hc] at hstate
    rw [Option.some.inj hstate] at hfin
    cases hfin
  have hfacts : (closing.tracks ⟨1, 49152, 2, 80⟩).map
      (fun t ↦ (t.conn.state, t.hist.accepted)) = some (.finWait1, [1, 2]) := by
    decide +kernel
  obtain ⟨t, ht, hval⟩ := Option.map_eq_some_iff.mp hfacts
  obtain ⟨hst, haccepted⟩ := Prod.mk.inj hval
  obtain ⟨hpending, hsent, -⟩ := nothing_accepted_after_fin hrun ht (by rw [hst]; rfl)
  exact ⟨t, ht, hst, hpending, hsent.trans haccepted⟩

/-- On a closed connection with a FIN in flight, `send` reports three bytes that are never
sent. -/
theorem exists_accepted_after_fin :
    ∃ (h : Host) (t : Track), h.Reachable {} ∧ h.tracks ⟨1, 49152, 2, 80⟩ = some t ∧
      t.conn.state = .finWait1 ∧ t.conn.sendPending = [3, 4, 5] ∧
      closing.table.sendResult ⟨1, 49152, 2, 80⟩ [3, 4, 5] = 3 := by
  let h := closing.step (.send 0 ⟨1, 49152, 2, 80⟩ [3, 4, 5])
  have hreach : h.Reachable {} := ((reachable_connected.call _).call _).call _
  have hfacts : (h.tracks ⟨1, 49152, 2, 80⟩).map
      (fun t ↦ (t.conn.state, t.conn.sendPending)) = some (.finWait1, [3, 4, 5]) := by
    decide +kernel
  obtain ⟨t, ht, hval⟩ := Option.map_eq_some_iff.mp hfacts
  obtain ⟨hst, hpending⟩ := Prod.mk.inj hval
  exact ⟨h, t, hreach, ht, hst, hpending, by decide +kernel⟩

end Host

end MiniTcp
