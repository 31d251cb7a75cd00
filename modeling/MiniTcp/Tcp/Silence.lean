import MiniTcp.Tcp.States
import MiniTcp.Tcp.System

/-!
# Closed connections

A connection that a reset, its last acknowledgement, a timer or the retry limit closes
leaves the table in the same call.  Only `close` in SYN_SENT leaves it there as Closed,
with its SYN in the retransmission queue, until the next cleanup; `tick` repeats the front
of every queue before it cleans up.
-/

namespace MiniTcp

namespace TcpConnection

variable {c : TcpConnection}

/-- The front of the retransmission queue has timed out and has a retry left. -/
def repeats (now : Instant) (c : TcpConnection) : Bool :=
  match c.retransmitQueue with
  | [] => false
  | front :: _ => now - front.sentAt ≥ front.rto && front.retryCount < maxRetries

theorem tick_out_of_closed (hst : c.state = .closed) (now : Instant) :
    (c.tick now).2 = if c.givesUp now then [] else (c.retransmitFront now).2 := by
  have hprobe : c.tickProbe now = ({ c with probeDeadline := none }, []) := by
    unfold tickProbe
    rw [if_neg (by simp [hst])]
  obtain ⟨queue, hfront⟩ := retransmitFront_eq now { c with probeDeadline := none }
  have hflush :
      (({ c with probeDeadline := none }.retransmitFront now).1.flushSend now).2 = [] := by
    rw [hfront, flushSend_of_not_sends now (by rw [hst]; rfl)]
  have hout : ({ c with probeDeadline := none }.retransmitFront now).2 =
      (c.retransmitFront now).2 := by
    unfold retransmitFront
    dsimp only
    split
    · rfl
    · split_ifs <;> rfl
  unfold tick
  rw [if_neg (by simp [hst]), hprobe]
  dsimp only
  rw [hflush, hout, List.append_nil, List.nil_append, apply_ite Prod.snd]
  rfl

theorem tick_silent_iff (hst : c.state = .closed) (now : Instant) :
    (c.tick now).2 = [] ↔ c.repeats now = false := by
  rw [tick_out_of_closed hst]
  unfold givesUp retransmitFront repeats
  cases c.retransmitQueue with
  | nil => simp
  | cons front rest =>
      dsimp only
      by_cases hdue : now - front.sentAt ≥ front.rto <;>
        by_cases hretry : front.retryCount ≥ maxRetries <;> simp [hdue, hretry]

/-- On a Closed connection only a timer that repeats the front of the queue sends. -/
theorem step_out_of_closed (hst : c.state = .closed) (e : ConnEvent)
    (he : ∀ now, e = .tick now → c.repeats now = false) : (c.step e).2.out = [] := by
  cases e with
  | tick now => exact (tick_silent_iff hst now).mpr (he now rfl)
  | segment now seg payload =>
      change (c.processSegment now seg payload).out = []
      unfold processSegment
      rw [if_neg (by simp [hst]), hst]
  | send now data =>
      change (c.send now data).2 = []
      rw [send_of_not_sends now data (by rw [hst]; rfl)]
  | close now =>
      change (c.close now).2 = []
      unfold close
      rw [hst]
  | recv | setRecvCap | setSendCap => rfl

theorem closed_of_flushSend {now : Instant} (h : (c.flushSend now).1.state = .closed) :
    c.state = .closed := by
  rcases flushSend_state now c with hsame | ⟨-, hfin | hfin⟩
  · exact hsame.symm.trans h
  · rw [hfin] at h
    cases h
  · rw [hfin] at h
    cases h

/-- The calls that do not clean up close a connection only from SYN_SENT (or LISTEN, which
is not reached). -/
theorem closed_of_call {e : ConnEvent} (he : e.cleans = false)
    (h : (c.step e).1.state = .closed) :
    c.state = .closed ∨ (c.state = .synSent ∨ c.state = .listen) ∧ ∃ now, e = .close now := by
  cases e with
  | segment | tick => cases he
  | send now data =>
      exact .inl (closed_of_flushSend
        (c := { c with sendPending := c.sendPending ++ c.acceptedPrefix data }) h)
  | recv | setRecvCap | setSendCap => exact .inl h
  | close now =>
      change (c.close now).1.state = .closed at h
      unfold close at h
      split at h
      case h_1 | h_2 => exact .inl (closed_of_flushSend (c := { c with pendingClose := true }) h)
      case h_3 hs => exact .inr ⟨.inl hs, now, rfl⟩
      case h_4 hs => exact .inr ⟨.inr hs, now, rfl⟩
      case h_5 => exact .inl h

end TcpConnection

namespace Host

variable {h h' : Host} {k : ConnectionKey} {t t' : Track} {e : TableEvent} {m : Emission}

theorem tracks_of_open (ht : h.tracks k = some t) (hopened : e.opened h.table k = none)
    (hopen : (t.after (e.on k)).conn.state ≠ .closed) :
    (h.step e).tracks k = some (t.after (e.on k)) := by
  rw [Track.conn_after] at hopen
  have hlook := TcpTable.lookup_step_of_open (lookup_of_track ht) hopened hopen
  change h.nextTrack e k = _
  rw [nextTrack, hlook, if_neg (by simp), hopened, Option.none_or, ht]
  rfl

theorem mem_out_of_emits (ht : h.tracks k = some t) (hm : m ∈ t.conn.emits (e.on k)) :
    m ∈ h.out e := by
  have hlook := lookup_of_track ht
  cases hon : e.on k with
  | none =>
      rw [hon] at hm
      cases hm
  | some ce =>
      rw [hon] at hm
      cases TableEvent.on_cases hon with
      | segment hseg hkey =>
          subst hkey
          rw [out_segment hseg ht]
          exact hm
      | tick now => exact List.mem_flatMap.mpr ⟨t.conn, AssocMap.mem_values.mpr ⟨k, hlook⟩, hm⟩
      | send now data =>
          simp only [out, TcpTable.step, TcpTable.send, TcpTable.withConnection, hlook]
          exact hm
      | close now =>
          simp only [out, TcpTable.step, TcpTable.close, TcpTable.withConnection, hlook]
          exact hm
      | recv | setRecvCap | setSendCap => cases hm

/-- What leaves under the 4-tuple of a connection was sent by it, unless the call opens
another one in its place. -/
theorem Reachable.emits_of_mem_out (hh : h.Reachable {}) (ht : h.tracks k = some t)
    (hopened : e.opened h.table k = none) (hm : m ∈ h.out e) (hsource : m.source = k) :
    m ∈ t.conn.emits (e.on k) := by
  have hsame {k' : ConnectionKey} {c : TcpConnection} {ce : ConnEvent}
      (hc : h.table.lookup k' = some c) (hm : m ∈ c.emits (some ce)) : k' = k ∧ c = t.conn := by
    rw [h.agree] at hc
    obtain ⟨t', ht', rfl⟩ := Option.map_eq_some_iff.mp hc
    obtain rfl : k' = k := (hh.source_emits ht' hm).symm.trans hsource
    rw [ht] at ht'
    obtain rfl := Option.some.inj ht'
    exact ⟨rfl, rfl⟩
  cases e with
  | segment now iss ipHdr payload =>
      simp only [TableEvent.on]
      cases hseg : TcpTable.acceptedSegment ipHdr payload with
      | none =>
          simp only [out, TcpTable.step, TcpTable.handleSegment, hseg] at hm
          cases hm
      | some p =>
          have hkey : TcpTable.segmentKey ipHdr p.1 = k := by
            simp only [out, TcpTable.step, TcpTable.handleSegment, hseg] at hm
            exact (hh.source_demux hm).symm.trans hsource
          subst hkey
          rw [out_segment hseg ht] at hm
          dsimp only
          rw [if_pos rfl]
          exact hm
  | tick now =>
      obtain ⟨c, hc, hm⟩ := List.mem_flatMap.mp hm
      obtain ⟨k', hk'⟩ := AssocMap.mem_values.mp hc
      change m ∈ c.emits (some (.tick now)) at hm
      obtain ⟨rfl, rfl⟩ := hsame hk' hm
      exact hm
  | connect now iss localAddr remoteAddr remotePort =>
      have hkey : (⟨localAddr, h.table.nextEphemeralPort, remoteAddr, remotePort⟩ :
          ConnectionKey) = k := by
        rw [List.mem_singleton.mp hm] at hsource
        exact hsource
      rw [TableEvent.opened, if_pos hkey] at hopened
      cases hopened
  | send now key data =>
      obtain ⟨c, hc, hm⟩ := TcpTable.mem_withConnection (e := .send now data) (fun _ ↦ rfl) hm
      rw [if_pos rfl] at hm
      obtain ⟨rfl, rfl⟩ := hsame hc hm
      rw [TableEvent.on, if_pos rfl]
      exact hm
  | close now key =>
      obtain ⟨c, hc, hm⟩ := TcpTable.mem_withConnection (e := .close now) (fun _ ↦ rfl) hm
      rw [if_pos rfl] at hm
      obtain ⟨rfl, rfl⟩ := hsame hc hm
      rw [TableEvent.on, if_pos rfl]
      exact hm
  | _ => cases hm

/-- Only `close` in SYN_SENT leaves a Closed connection in the table. -/
theorem Reachable.closed_of_step (hh : h.Reachable {}) (ht' : (h.step e).tracks k = some t')
    (hst' : t'.conn.state = .closed) :
    ∃ t, h.tracks k = some t ∧
      (t.conn.state = .closed ∨ t.conn.state = .synSent ∧ ∃ now, e = .close now k) := by
  rcases tracks_step ht' with hopened | ⟨-, t, ht, rfl⟩
  · rcases TableEvent.opened_key hopened with ⟨now, iss, rfl⟩ | ⟨now, iss, seg, rfl⟩ <;>
      cases hst'
  refine ⟨t, ht, ?_⟩
  have hlook' := lookup_of_track ht'
  cases hon : e.on k with
  | none =>
      rw [hon] at hst'
      exact .inl hst'
  | some ce =>
      cases hcleans : ce.cleans with
      | true =>
          refine absurd hst' (TcpTable.lookup_step_open hlook' hon hcleans ?_)
          rw [lookup_of_track ht]
          exact Option.some_ne_none _
      | false =>
          rw [hon] at hst'
          rcases TcpConnection.closed_of_call hcleans hst' with hst | ⟨hst | hst, now, rfl⟩
          · exact .inl hst
          · cases TableEvent.on_cases hon with
            | close now => exact .inr ⟨hst, now, rfl⟩
          · exact absurd hst (hh.track ht).handshake.1

theorem emits_of_closed {c : TcpConnection} (hst : c.state = .closed) (k : ConnectionKey) :
    c.emits (e.on k) = [] ↔ ∀ now, e = .tick now → c.repeats now = false := by
  constructor
  · rintro hnil now rfl
    exact (TcpConnection.tick_silent_iff hst now).mp hnil
  · intro hquiet
    cases hon : e.on k with
    | none => rfl
    | some ce =>
        refine TcpConnection.step_out_of_closed hst ce ?_
        rintro now rfl
        cases TableEvent.on_cases hon with
        | tick now => exact hquiet now rfl

theorem Reachable.silent_iff (hh : h.Reachable {}) (ht : h.tracks k = some t)
    (hst : t.conn.state = .closed) (hopened : e.opened h.table k = none) :
    (∀ m ∈ h.out e, m.source ≠ k) ↔ ∀ now, e = .tick now → t.conn.repeats now = false := by
  rw [← emits_of_closed hst k, List.eq_nil_iff_forall_not_mem]
  constructor
  · intro hsilent m hm
    have hsource : m.source = k := by
      cases hon : e.on k with
      | none =>
          rw [hon] at hm
          cases hm
      | some ce =>
          rw [hon] at hm
          exact hh.source_emits ht hm
    exact hsilent m (mem_out_of_emits ht hm) hsource
  · intro hnone m hm hsource
    exact hnone m (hh.emits_of_mem_out ht hopened hm hsource)

/-- No call opens another connection under `k`, and no timer repeats for a Closed one. -/
def Quiet (k : ConnectionKey) (h : Host) (e : TableEvent) : Prop :=
  e.opened h.table k = none ∧ ∀ t, h.tracks k = some t → t.conn.state = .closed →
    ∀ now, e = .tick now → t.conn.repeats now = false

/-- A connection that is Closed, or not there any more. -/
def Over (k : ConnectionKey) (out : List Emission) (h : Host) : Prop :=
  ∀ t, h.tracks k = some t → t.conn.state = .closed ∧ t.hist.out = out

theorem Over.step {out : List Emission} (hover : h.Over k out) (hquiet : Quiet k h e) :
    (h.step e).Over k out := by
  intro t' ht'
  rcases tracks_step ht' with hopened | ⟨-, t, ht, rfl⟩
  · rw [hquiet.1] at hopened
    cases hopened
  · obtain ⟨hst, hout⟩ := hover t ht
    have hnil := (emits_of_closed (e := e) hst k).mpr (hquiet.2 t ht hst)
    cases hon : e.on k with
    | none => exact ⟨hst, hout⟩
    | some ce =>
        rw [hon] at hnil
        refine ⟨Track.closed_step t ce hst, ?_⟩
        change t.hist.out ++ t.conn.emits (some ce) = out
        rw [hnil, List.append_nil]
        exact hout

/-- Only `close` in SYN_SENT leaves a Closed connection behind; a call sends something
from it if and only if it is a timer that repeats its SYN; otherwise it stays Closed and
silent until it is gone. -/
theorem closed_silent (hh : h.Reachable {}) :
    (∀ e k t', (h.step e).tracks k = some t' → t'.conn.state = .closed →
      ∃ t, h.tracks k = some t ∧
        (t.conn.state = .closed ∨ t.conn.state = .synSent ∧ ∃ now, e = .close now k)) ∧
    ∀ k t, h.tracks k = some t → t.conn.state = .closed →
      (∀ e, e.opened h.table k = none → ((∀ m ∈ h.out e, m.source ≠ k) ↔
        ∀ now, e = .tick now → t.conn.repeats now = false)) ∧
      ∀ h', Run.Reaches (· = h) (Quiet k) step h' → ∀ t', h'.tracks k = some t' →
        t'.conn.state = .closed ∧ t'.hist.out = t.hist.out := by
  refine ⟨fun e k t' ht' hst' ↦ hh.closed_of_step ht' hst', fun k t ht hst ↦ ?_⟩
  refine ⟨fun e hopened ↦ hh.silent_iff ht hst hopened, fun h' hrun ↦ ?_⟩
  refine Run.Reaches.invariant (P := Over k t.hist.out) ?_ ?_ hrun
  · rintro h' rfl t' ht'
    rw [ht] at ht'
    obtain rfl := Option.some.inj ht'
    exact ⟨hst, rfl⟩
  · intro h' e _ hquiet hover
    exact hover.step hquiet

/-! A connection that is closed while its SYN is on the way. -/

def abandoned : Host :=
  (new.step (.connect 0 1000 1 2 80)).step (.close 0 ⟨1, 49152, 2, 80⟩)

theorem reachable_abandoned : abandoned.Reachable {} := ((reachable_new {}).call _).call _

theorem closed_silent_early :
    ∃ t, abandoned.tracks ⟨1, 49152, 2, 80⟩ = some t ∧ t.conn.state = .closed ∧
      ∀ m ∈ abandoned.out (.tick 499999999), m.source ≠ ⟨1, 49152, 2, 80⟩ := by
  have hfacts : (abandoned.tracks ⟨1, 49152, 2, 80⟩).map
      (fun t ↦ (t.conn.state, t.conn.repeats 499999999)) = some (.closed, false) := by
    decide +kernel
  obtain ⟨t, ht, hval⟩ := Option.map_eq_some_iff.mp hfacts
  obtain ⟨hst, hrepeats⟩ := Prod.mk.inj hval
  refine ⟨t, ht, hst, ?_⟩
  refine (((closed_silent reachable_abandoned).2 _ t ht hst).1 (.tick 499999999) rfl).mpr ?_
  rintro now ⟨⟩
  exact hrepeats

/-- Half a second after the connection was opened and closed, its SYN is sent again. -/
theorem exists_closed_sends :
    ∃ (h : Host) (t : Track) (m : Emission), h.Reachable {} ∧
      h.tracks ⟨1, 49152, 2, 80⟩ = some t ∧ t.conn.state = .closed ∧
      h.out (.tick 500000000) = [m] ∧ m.source = ⟨1, 49152, 2, 80⟩ ∧ m.flags = tcpSyn := by
  have hfacts : (abandoned.tracks ⟨1, 49152, 2, 80⟩).map (fun t ↦ t.conn.state) =
      some .closed := by
    decide +kernel
  obtain ⟨t, ht, hst⟩ := Option.map_eq_some_iff.mp hfacts
  have hout : (abandoned.out (.tick 500000000)).map (fun m ↦ (m.source, m.flags)) =
      [(⟨1, 49152, 2, 80⟩, tcpSyn)] := by
    decide +kernel
  obtain ⟨m, hm, hval⟩ := List.map_eq_singleton_iff.mp hout
  obtain ⟨hsource, hflags⟩ := Prod.mk.inj hval
  exact ⟨abandoned, t, m, reachable_abandoned, ht, hst, hm, hsource, hflags⟩

end Host

end MiniTcp
