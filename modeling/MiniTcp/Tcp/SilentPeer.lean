import MiniTcp.Tcp.Bounds
import MiniTcp.Tcp.Exchange
import MiniTcp.Tcp.Silence
import MiniTcp.Tcp.Timers

/-!
# A peer that says nothing

Nothing arrives for a connection any more, while its host ticks and the application goes on
calling.  What is in flight is repeated at most `MAX_RETRIES` times; then the connection
is given up.  A connection in TIME_WAIT ends with its deadline.  A connection that has
nothing in flight stays as it is for ever, also behind a closed window.
-/

namespace MiniTcp

/-! ## The retries that are left -/

/-- What every fresh entry has and a repetition keeps, every entry of the queue has. -/
theorem Transmits.forall_queue {now : Instant} {q q' : List UnackedSegment}
    {out : List Emission} {P : UnackedSegment → Prop} (h : Transmits now q out q')
    (hfresh : ∀ u : UnackedSegment, u.Fresh now → P u)
    (hresent : ∀ u : UnackedSegment, u.retryCount < maxRetries → P u → P (u.resent now))
    (hq : ∀ u ∈ q, P u) : ∀ u ∈ q', P u := by
  induction h with
  | nil q => exact hq
  | queued u _ hu _ ih =>
      refine ih fun v hv ↦ ?_
      rcases List.mem_append.mp hv with hv | hv
      · exact hq v hv
      · rw [List.mem_singleton.mp hv]
        exact hfresh u hu
  | resent _ _ hleft _ ih =>
      obtain ⟨hfront, hrest⟩ := List.forall_mem_cons.mp hq
      exact ih (List.forall_mem_cons.mpr ⟨hresent _ hleft hfront, hrest⟩)
  | other _ _ ih => exact ih hq

theorem Track.Reachable.forall_queue {g : Guard} {t : Track} {P : UnackedSegment → Prop}
    (h : t.Reachable g) (hfresh : ∀ now, ∀ u : UnackedSegment, u.Fresh now → P u)
    (hresent : ∀ now, ∀ u : UnackedSegment, u.retryCount < maxRetries → P u → P (u.resent now)) :
    ∀ u ∈ t.conn.retransmitQueue, P u := by
  refine Run.Reaches.invariant (P := fun t : Track ↦ ∀ u ∈ t.conn.retransmitQueue, P u) ?_ ?_ h
  · rintro t (⟨now, iss, key, rfl⟩ | ⟨now, iss, key, seg, rfl⟩) u hu
    · rw [List.mem_singleton.mp hu]
      exact hfresh now _ ⟨rfl, rfl, rfl⟩
    · rw [List.mem_singleton.mp hu]
      exact hfresh now _ ⟨rfl, rfl, rfl⟩
  · intro t ce _ _ hinv
    obtain ⟨q, hsuffix, htransmits⟩ := t.conn.step_handles ce
    exact htransmits.forall_queue (hfresh _) (hresent _) fun u hu ↦ hinv u (hsuffix.subset hu)

theorem Track.Reachable.retries {g : Guard} {t : Track} (h : t.Reachable g) :
    ∀ u ∈ t.conn.retransmitQueue, u.retryCount ≤ maxRetries := by
  refine h.forall_queue (fun now u hu ↦ ?_) fun now u hleft _ ↦ hleft
  rw [hu.2.2]
  exact Nat.zero_le _

namespace TcpConnection

variable {c : TcpConnection} {now : Instant} {front : UnackedSegment}
  {rest : List UnackedSegment}

theorem close_queue (now : Instant) (c : TcpConnection) :
    c.retransmitQueue <+: (c.close now).1.retransmitQueue := by
  unfold close
  split
  case h_1 | h_2 => exact (flushSend_queue now { c with pendingClose := true }).1
  all_goals exact List.prefix_refl _

theorem call_queue {e : ConnEvent} (he : e.cleans = false) :
    c.retransmitQueue <+: (c.step e).1.retransmitQueue := by
  cases e with
  | segment | tick => cases he
  | send now data =>
      exact (flushSend_queue now
        { c with sendPending := c.sendPending ++ c.acceptedPrefix data }).1
  | close now => exact close_queue now c
  | recv | setRecvCap | setSendCap => exact List.prefix_refl _

theorem flushSend_timeWait (h : c.state ≠ .timeWait) : (c.flushSend now).1.state ≠ .timeWait := by
  intro htw
  rcases flushSend_state now c with hs | ⟨-, hs | hs⟩
  · exact h (hs.symm.trans htw)
  · rw [hs] at htw
    cases htw
  · rw [hs] at htw
    cases htw

theorem close_timeWait (now : Instant) (h : c.state ≠ .timeWait) :
    (c.close now).1.state ≠ .timeWait := by
  unfold close
  split
  case h_1 | h_2 => exact flushSend_timeWait (c := { c with pendingClose := true }) h
  case h_3 | h_4 => exact TcpState.noConfusion
  case h_5 => exact h

theorem call_timeWait {e : ConnEvent} (he : e.cleans = false) (h : c.state ≠ .timeWait) :
    (c.step e).1.state ≠ .timeWait := by
  cases e with
  | segment | tick => cases he
  | send now data => exact flushSend_timeWait (c := { c with sendPending := _ }) h
  | close now => exact close_timeWait now h
  | recv | setRecvCap | setSendCap => exact h

/-- In TIME_WAIT no call changes the state or the deadline. -/
theorem call_of_timeWait {e : ConnEvent} (he : e.cleans = false) (h : c.state = .timeWait) :
    (c.step e).1.state = .timeWait ∧ (c.step e).1.timeWaitDeadline = c.timeWaitDeadline := by
  cases e with
  | segment | tick => cases he
  | send now data =>
      change (c.send now data).1.state = _ ∧ (c.send now data).1.timeWaitDeadline = _
      rw [send_of_not_sends now data (by rw [h]; rfl)]
      exact ⟨h, rfl⟩
  | close now =>
      change (c.close now).1.state = _ ∧ (c.close now).1.timeWaitDeadline = _
      unfold close
      rw [h]
      exact ⟨h, rfl⟩
  | recv | setRecvCap | setSendCap => exact ⟨h, rfl⟩

theorem tick_of_timeWait (h : c.state = .timeWait) (hopen : (c.tick now).1.state ≠ .closed) :
    now < c.timeWaitDeadline ∧ (c.tick now).1 = c := by
  unfold tick at hopen ⊢
  rw [if_pos h] at hopen ⊢
  dsimp only at hopen ⊢
  by_cases hlate : now ≥ c.timeWaitDeadline
  · rw [if_pos hlate] at hopen
    exact absurd rfl hopen
  · rw [if_neg hlate]
    exact ⟨Nat.lt_of_not_ge hlate, rfl⟩

/-- The front has timed out: it is repeated, or the connection is given up. -/
theorem tick_of_due (htw : c.state ≠ .timeWait) (hq : c.retransmitQueue = front :: rest)
    (hdue : front.rto ≤ now - front.sentAt) :
    (c.tick now).1.state = .closed ∧ maxRetries ≤ front.retryCount ∨
      front.retryCount < maxRetries ∧ (c.tick now).1.state ≠ .timeWait ∧
        ∃ rest', (c.tick now).1.retransmitQueue = front.resent now :: rest' := by
  rcases Nat.lt_or_ge front.retryCount maxRetries with hleft | hused
  · obtain ⟨-, c₂, hstate, -, -, hqueue, htick⟩ := tick_resends htw hq hdue hleft
    obtain ⟨new, hnew⟩ := (flushSend_queue now c₂).1
    rw [htick]
    refine .inr ⟨hleft, flushSend_timeWait (hstate ▸ htw), rest ++ new, ?_⟩
    rw [← hnew, hqueue]
    rfl
  · left
    obtain ⟨deadline, rto, hprobe⟩ := tickProbe_eq now c
    have hup : (c.tickProbe now).1.givesUp now = true := by
      rw [hprobe]
      unfold givesUp
      dsimp only
      rw [hq]
      simpa using ⟨hdue, hused⟩
    unfold tick
    rw [if_neg htw]
    dsimp only
    rw [hup, if_pos rfl]
    exact ⟨rfl, hused⟩

theorem tick_of_not_due (htw : c.state ≠ .timeWait) (hq : c.retransmitQueue = front :: rest)
    (hearly : ¬ front.rto ≤ now - front.sentAt) :
    (c.tick now).1.state ≠ .timeWait ∧
      ∃ rest', (c.tick now).1.retransmitQueue = front :: rest' := by
  obtain ⟨deadline, rto, hprobe⟩ := tickProbe_eq now c
  have hq₁ : (c.tickProbe now).1.retransmitQueue = front :: rest := by
    rw [hprobe]
    exact hq
  have hup : (c.tickProbe now).1.givesUp now = false := by
    unfold givesUp
    rw [hq₁]
    simp [hearly]
  have hfront : (c.tickProbe now).1.retransmitFront now = ((c.tickProbe now).1, []) := by
    unfold retransmitFront
    rw [hq₁]
    dsimp only
    rw [if_neg hearly]
  have htick : (c.tick now).1 = ((c.tickProbe now).1.flushSend now).1 := by
    unfold tick
    rw [if_neg htw]
    dsimp only
    rw [hup, hfront]
    rfl
  obtain ⟨new, hnew⟩ := (flushSend_queue now (c.tickProbe now).1).1
  rw [htick]
  refine ⟨flushSend_timeWait (by rwa [hprobe]), rest ++ new, ?_⟩
  rw [← hnew, hq₁]
  rfl

end TcpConnection

/-! ## Until the connection is given up -/

def TableEvent.tickAt : TableEvent → Option Instant
  | .tick now => some now
  | _ => none

namespace Host

variable {h : Host} {k : ConnectionKey} {t t' : Track} {e : TableEvent} {es : List TableEvent}
  {last : Instant}

/-- Nothing arrives for the connection `k`, and nothing new is opened in its place. -/
def Unheard (k : ConnectionKey) (h : Host) (e : TableEvent) : Prop :=
  e.opened h.table k = none ∧ ∀ now seg data, e.on k ≠ some (.segment now seg data)

theorem unheard_tick (k : ConnectionKey) (h : Host) (now : Instant) :
    Unheard k h (.tick now) := by
  refine ⟨rfl, fun now' seg data hon ↦ ?_⟩
  cases hon

theorem Unheard.tracks_none (he : Unheard k h e) (ht : h.tracks k = none) :
    (h.step e).tracks k = none := by
  cases ht' : (h.step e).tracks k with
  | none => rfl
  | some t' =>
      rcases tracks_step ht' with hopen | ⟨-, t, hsome, -⟩
      · rw [he.1] at hopen
        cases hopen
      · rw [ht] at hsome
        cases hsome

theorem tracks_none_along (ht : h.tracks k = none) (hes : Run.Along (Unheard k) step h es) :
    (es.foldl step h).tracks k = none :=
  hes.invariant (P := fun h ↦ h.tracks k = none) (fun _ _ _ he ht ↦ he.tracks_none ht) ht

/-- What happens to a connection nothing arrives for: a call, or a tick after which it is
not closed. -/
theorem Unheard.cases (he : Unheard k h e) (ht' : (h.step e).tracks k = some t') :
    ∃ t, h.tracks k = some t ∧
      (e.tickAt = none ∧ (t' = t ∨ ∃ ce : ConnEvent, ce.cleans = false ∧ t' = t.step ce) ∨
        ∃ now, e = .tick now ∧ t' = t.step (.tick now) ∧ t'.conn.state ≠ .closed) := by
  rcases tracks_step ht' with hopen | ⟨-, t, ht, hafter⟩
  · rw [he.1] at hopen
    cases hopen
  refine ⟨t, ht, ?_⟩
  cases hon : e.on k with
  | none =>
      rw [hon] at hafter
      refine .inl ⟨?_, .inl hafter⟩
      cases e with
      | tick now => cases hon
      | _ => rfl
  | some ce =>
      rw [hon] at hafter
      cases TableEvent.on_cases hon with
      | @segment now _ _ _ data seg _ _ => exact absurd hon (he.2 now seg data)
      | tick now => exact .inr ⟨now, rfl, hafter, (tracks_tick ht').1⟩
      | send | recv | close | setRecvCap | setSendCap =>
          exact .inl ⟨rfl, .inr ⟨_, rfl, hafter⟩⟩

/-- The connection will be given up by a tick: `left` ticks are still to come that are
`MAX_RTO` apart from each other and from `last`, and each of them finds the front due,
unless a tick between them, up to `now`, has repeated it first. -/
def Doomed (now last : Instant) (left : ℕ) (c : TcpConnection) : Prop :=
  c.state ≠ .timeWait ∧ ∃ front rest, c.retransmitQueue = front :: rest ∧
    front.sentAt ≤ now ∧ front.rto ≤ maxRto ∧ front.retryCount ≤ maxRetries ∧
    (front.sentAt ≤ last ∧ maxRetries < front.retryCount + left ∨
      maxRetries + 1 < front.retryCount + left)

section Doomed

variable {now now' last : Instant} {left : ℕ} {c : TcpConnection}

theorem Doomed.call {ce : ConnEvent} (h : Doomed now last left c) (hce : ce.cleans = false) :
    Doomed now last left (c.step ce).1 := by
  obtain ⟨htw, front, rest, hq, hfront⟩ := h
  obtain ⟨new, hnew⟩ := TcpConnection.call_queue (c := c) hce
  rw [hq] at hnew
  exact ⟨TcpConnection.call_timeWait hce htw, front, rest ++ new, hnew.symm, hfront⟩

/-- A tick between the chosen ones uses up a retry or does nothing to the front. -/
theorem Doomed.tick (h : Doomed now last left c) (hnow : now ≤ now')
    (hopen : (c.tick now').1.state ≠ .closed) : Doomed now' last left (c.tick now').1 := by
  obtain ⟨htw, front, rest, hq, hsent, hrto, hretry, hleft⟩ := h
  by_cases hdue : front.rto ≤ now' - front.sentAt
  · rcases TcpConnection.tick_of_due htw hq hdue with ⟨hclosed, -⟩ | ⟨hmore, htw', rest', hq'⟩
    · exact absurd hclosed hopen
    · refine ⟨htw', _, rest', hq', Nat.le_refl now', Nat.min_le_right _ _, hmore, .inr ?_⟩
      change maxRetries + 1 < front.retryCount + 1 + left
      omega
  · obtain ⟨htw', rest', hq'⟩ := TcpConnection.tick_of_not_due htw hq hdue
    exact ⟨htw', front, rest', hq', hsent.trans hnow, hrto, hretry, hleft⟩

/-- At a chosen tick the front is due, or a retry has been used since the last one. -/
theorem Doomed.chosen (h : Doomed now last (left + 1) c) (hnow : now ≤ now')
    (hlast : last + maxRto ≤ now') (hopen : (c.tick now').1.state ≠ .closed) :
    Doomed now' now' left (c.tick now').1 := by
  obtain ⟨htw, front, rest, hq, hsent, hrto, hretry, hleft⟩ := h
  by_cases hdue : front.rto ≤ now' - front.sentAt
  · rcases TcpConnection.tick_of_due htw hq hdue with ⟨hclosed, -⟩ | ⟨hmore, htw', rest', hq'⟩
    · exact absurd hclosed hopen
    · refine ⟨htw', _, rest', hq', Nat.le_refl now', Nat.min_le_right _ _, hmore,
        .inl ⟨Nat.le_refl now', ?_⟩⟩
      change maxRetries < front.retryCount + 1 + left
      omega
  · obtain ⟨htw', rest', hq'⟩ := TcpConnection.tick_of_not_due htw hq hdue
    rcases hleft with ⟨hold, -⟩ | hleft
    · refine absurd (hrto.trans (Nat.le_sub_of_add_le ?_)) hdue
      exact (Nat.add_comm maxRto front.sentAt).trans_le ((Nat.add_le_add_right hold _).trans hlast)
    · exact ⟨htw', front, rest', hq', hsent.trans hnow, hrto, hretry,
        .inl ⟨hsent.trans hnow, by omega⟩⟩

end Doomed

/-- From one chosen tick to the next, at least one retry is used up. -/
theorem tracks_of_doomed {now : Instant} {times : List Instant}
    (ht : ∀ t, h.tracks k = some t → Doomed now last times.length t.conn)
    (hes : Run.Along (Unheard k) step h es)
    (hclock : (now :: es.filterMap TableEvent.tickAt).IsChain (· ≤ ·))
    (htimes : times.Sublist (es.filterMap TableEvent.tickAt))
    (hspaced : (last :: times).IsChain (fun a b ↦ a + maxRto ≤ b)) :
    (es.foldl step h).tracks k = none := by
  induction es generalizing h now last times with
  | nil =>
      obtain rfl := List.sublist_nil.mp htimes
      cases htr : h.tracks k with
      | none => exact htr
      | some t =>
          obtain ⟨-, front, -, -, -, -, hretry, hleft⟩ := ht t htr
          rw [List.length_nil] at hleft
          omega
  | cons e es ih =>
      obtain ⟨he, hes⟩ := hes
      cases hat : e.tickAt with
      | none =>
          rw [List.filterMap_cons_none hat] at hclock htimes
          refine ih (fun t' ht' ↦ ?_) hes hclock htimes hspaced
          obtain ⟨t, htr, ⟨-, rfl | ⟨ce, hce, rfl⟩⟩ | ⟨now, rfl, -⟩⟩ := he.cases ht'
          · exact ht _ htr
          · exact (ht t htr).call hce
          · cases hat
      | some now' =>
          rw [List.filterMap_cons_some hat] at hclock htimes
          obtain ⟨hnow, hclock⟩ := List.isChain_cons_cons.mp hclock
          have htick (t' : Track) (ht' : (h.step e).tracks k = some t') :
              ∃ t, h.tracks k = some t ∧ t' = t.step (.tick now') ∧ t'.conn.state ≠ .closed := by
            obtain ⟨t, htr, ⟨hnone, -⟩ | ⟨now₁, rfl, hstep, hopen⟩⟩ := he.cases ht'
            · rw [hat] at hnone
              cases hnone
            · obtain rfl := Option.some.inj hat
              exact ⟨t, htr, hstep, hopen⟩
          rcases List.sublist_cons_iff.mp htimes with hskip | ⟨times', rfl, hrest⟩
          · refine ih (fun t' ht' ↦ ?_) hes hclock hskip hspaced
            obtain ⟨t, htr, rfl, hopen⟩ := htick t' ht'
            exact (ht t htr).tick hnow hopen
          · obtain ⟨hlast, hspaced⟩ := List.isChain_cons_cons.mp hspaced
            refine ih (fun t' ht' ↦ ?_) hes hclock hrest hspaced
            obtain ⟨t, htr, rfl, hopen⟩ := htick t' ht'
            exact (ht t htr).chosen hnow hlast hopen

/-- The deadline of TIME_WAIT stands, and the first tick after it ends the connection. -/
theorem tracks_of_timeWait {deadline : Instant}
    (ht : ∀ t, h.tracks k = some t → t.conn.state = .timeWait ∧
      t.conn.timeWaitDeadline = deadline)
    (hes : Run.Along (Unheard k) step h es)
    (hlate : ∃ now ∈ es.filterMap TableEvent.tickAt, deadline ≤ now) :
    (es.foldl step h).tracks k = none := by
  induction es generalizing h with
  | nil =>
      obtain ⟨now, hmem, -⟩ := hlate
      cases hmem
  | cons e es ih =>
      obtain ⟨he, hes⟩ := hes
      cases hat : e.tickAt with
      | none =>
          rw [List.filterMap_cons_none hat] at hlate
          refine ih (fun t' ht' ↦ ?_) hes hlate
          obtain ⟨t, htr, ⟨-, rfl | ⟨ce, hce, rfl⟩⟩ | ⟨now, rfl, -⟩⟩ := he.cases ht'
          · exact ht _ htr
          · obtain ⟨hst, hdeadline⟩ := ht t htr
            obtain ⟨hst', hdeadline'⟩ := TcpConnection.call_of_timeWait hce hst
            exact ⟨hst', hdeadline'.trans hdeadline⟩
          · cases hat
      | some now =>
          have hkept (t' : Track) (ht' : (h.step e).tracks k = some t') :
              now < deadline ∧ t'.conn.state = .timeWait ∧ t'.conn.timeWaitDeadline = deadline := by
            obtain ⟨t, htr, ⟨hnone, -⟩ | ⟨now', rfl, rfl, hopen⟩⟩ := he.cases ht'
            · rw [hat] at hnone
              cases hnone
            · obtain rfl := Option.some.inj hat
              obtain ⟨hst, hdeadline⟩ := ht t htr
              obtain ⟨hlt, hsame⟩ := TcpConnection.tick_of_timeWait hst hopen
              change _ ∧ (t.conn.tick now').1.state = _ ∧ (t.conn.tick now').1.timeWaitDeadline = _
              rw [hsame]
              exact ⟨hdeadline ▸ hlt, hst, hdeadline⟩
          rw [List.filterMap_cons_some hat] at hlate
          obtain ⟨late, hmem, hle⟩ := hlate
          rcases List.mem_cons.mp hmem with rfl | hmem
          · have hnone : (h.step e).tracks k = none := by
              cases htr : (h.step e).tracks k with
              | none => rfl
              | some t' => exact absurd hle (Nat.not_le.mpr (hkept t' htr).1)
            exact tracks_none_along (h := h.step e) hnone hes
          · exact ih (fun t' ht' ↦ (hkept t' ht').2) hes ⟨late, hmem, hle⟩

/-- Nothing arrives for a connection any more.  If something is in flight and the clock does
not go back, the connection is gone once there are, among the ticks, as many that are
`MAX_RTO` apart as the front has retries left, and one more; in TIME_WAIT it is gone after
the first tick that is past the deadline.  How often the host ticks in between and what the
application calls in the meantime does not matter. -/
theorem silent_peer_removed (hh : h.Reachable {}) (ht : h.tracks k = some t)
    (hes : Run.Along (Unheard k) step h es) :
    (∀ front rest times, t.conn.state ≠ .timeWait → t.conn.retransmitQueue = front :: rest →
        (front.sentAt :: es.filterMap TableEvent.tickAt).IsChain (· ≤ ·) →
        times.Sublist (es.filterMap TableEvent.tickAt) →
        (front.sentAt :: times).IsChain (fun a b ↦ a + maxRto ≤ b) →
        maxRetries < front.retryCount + times.length →
        (es.foldl step h).tracks k = none) ∧
      (t.conn.state = .timeWait →
        (∃ now ∈ es.filterMap TableEvent.tickAt, t.conn.timeWaitDeadline ≤ now) →
        (es.foldl step h).tracks k = none) := by
  have hreach : t.Reachable {} := hh.track ht
  constructor
  · intro front rest times htw hq hclock htimes hspaced hlen
    have hfront : front ∈ t.conn.retransmitQueue := hq ▸ List.mem_cons_self
    refine tracks_of_doomed (fun t' ht' ↦ ?_) hes hclock htimes hspaced
    obtain rfl := Option.some.inj (ht.symm.trans ht')
    exact ⟨htw, front, rest, hq, Nat.le_refl _, (hreach.bounded.queue front hfront).2,
      hreach.retries front hfront, .inl ⟨Nat.le_refl _, hlen⟩⟩
  · intro htw hlate
    refine tracks_of_timeWait (fun t' ht' ↦ ?_) hes hlate
    obtain rfl := Option.some.inj (ht.symm.trans ht')
    exact ⟨htw, rfl⟩

theorem along_ticks (k : ConnectionKey) (h : Host) (times : List Instant) :
    Run.Along (Unheard k) step h (times.map .tick) := by
  induction times generalizing h with
  | nil => trivial
  | cons now times ih => exact ⟨unheard_tick k h now, ih _⟩

/-- The peer takes the handshake and then vanishes, and the host ticks every two seconds:
two bytes are repeated six times, the close does not help, and within seven times
`MAX_RTO` the connection is gone. -/
theorem silent_peer_removed_sending :
    ∃ (h : Host) (k : ConnectionKey) (t : Track), h.tracks k = some t ∧
      t.conn.state = .established ∧ sentBytes t.hist.out = [1, 2] ∧
      ((.close 0 k :: ((List.range 28).map fun i ↦ fromMillis (2000 * (i + 1))).map .tick).foldl
        step h).tracks k = none := by
  have hfacts : ((connected.step (.send 0 ⟨1, 49152, 2, 80⟩ [1, 2])).tracks
      ⟨1, 49152, 2, 80⟩).map (fun t ↦ (t.conn.state, sentBytes t.hist.out,
        t.conn.retransmitQueue.map fun u ↦ (u.sentAt, u.retryCount))) =
      some (.established, [1, 2], [(0, 0)]) := by
    decide +kernel
  obtain ⟨t, ht, hval⟩ := Option.map_eq_some_iff.mp hfacts
  simp only [Prod.mk.injEq] at hval
  obtain ⟨hst, hsent, hqueue⟩ := hval
  obtain ⟨front, hq, hfront⟩ := List.map_eq_singleton_iff.mp hqueue
  obtain ⟨hat, hretry⟩ := Prod.mk.inj hfront
  have hes (h : Host) : Run.Along (Unheard ⟨1, 49152, 2, 80⟩) step h
      (.close 0 ⟨1, 49152, 2, 80⟩ ::
        ((List.range 28).map fun i ↦ fromMillis (2000 * (i + 1))).map .tick) := by
    refine ⟨⟨rfl, fun now seg data hon ↦ ?_⟩, along_ticks _ _ _⟩
    rw [TableEvent.on, if_pos rfl] at hon
    cases hon
  refine ⟨_, _, t, ht, hst, hsent,
    (silent_peer_removed (reachable_connected.call _) ht (hes _)).1 front []
      ((List.range 7).map fun i ↦ (i + 1) * maxRto) ?_ hq ?_ ?_ ?_ ?_⟩
  · rw [hst]
    exact TcpState.noConfusion
  · rw [hat]
    decide
  · decide
  · rw [hat]
    decide
  · rw [hretry]
    decide

end Host

/-! ## While nothing is in flight -/

namespace TcpConnection

variable {c : TcpConnection}

/-- A flush that may send neither data nor the deferred FIN only arms the persist timer. -/
theorem flushSend_of_stuck (now : Instant) (hchunk : c.state.sends → c.chunkLen = 0)
    (hdefer : c.pendingClose → c.sendPending ≠ []) :
    ∃ deadline, c.flushSend now = ({ c with probeDeadline := deadline }, []) := by
  cases hst : c.state.sends with
  | false => exact ⟨c.probeDeadline, flushSend_of_not_sends now hst⟩
  | true =>
      obtain ⟨deadline, harm, -⟩ := armProbe_eq now c
      have hchunk' : (c.armProbe now).chunkLen = 0 := by
        rw [harm]
        exact hchunk hst
      have hfin : (c.armProbe now).sendDeferredFin now = (c.armProbe now, []) := by
        unfold sendDeferredFin
        rw [if_neg]
        rw [harm]
        exact fun h ↦ hdefer h.1 h.2
      rw [flushSend_of_sends now hst, flushLoop_of_chunkLen now _ hchunk']
      dsimp only
      rw [hfin, harm]
      exact ⟨deadline, rfl⟩

theorem tickProbe_origin (now : Instant) (c : TcpConnection) :
    ∀ m ∈ (c.tickProbe now).2, m.origin = .probe := by
  intro m hm
  unfold tickProbe at hm
  split_ifs at hm
  · split at hm
    · split_ifs at hm
      · rw [List.mem_singleton.mp hm]
      · cases hm
    · cases hm
  · cases hm

theorem tick_of_stuck (now : Instant) (htw : c.state ≠ .timeWait) (hq : c.retransmitQueue = [])
    (hchunk : c.state.sends → c.chunkLen = 0) (hdefer : c.pendingClose → c.sendPending ≠ []) :
    (∃ deadline rto, (c.tick now).1 = { c with probeDeadline := deadline, probeRto := rto }) ∧
      ∀ m ∈ (c.tick now).2, m.origin = .probe := by
  obtain ⟨deadline, rto, hprobe⟩ := tickProbe_eq now c
  obtain ⟨deadline', hflush⟩ :=
    flushSend_of_stuck (c := (c.tickProbe now).1) now (by rwa [hprobe]) (by rwa [hprobe])
  rw [tick_of_queue_nil htw hq, hflush, List.append_nil]
  refine ⟨⟨deadline', rto, ?_⟩, tickProbe_origin now c⟩
  rw [hprobe]

end TcpConnection

/-- Neither the peer nor the application moves the connection: nothing arrives, it is not
closed, and nothing is handed over that the window would let go. -/
def ConnEvent.Passive (c : TcpConnection) : ConnEvent → Prop
  | .segment _ _ _ | .close _ => False
  | .send _ _ => c.state.sends → c.sndWnd ≤ c.bytesInFlight
  | _ => True

namespace TcpConnection

variable {c c' : TcpConnection} {ce : ConnEvent}

/-- What may change while a connection waits: its buffers and the persist timer. -/
structure Idles (c c' : TcpConnection) : Prop where
  state : c'.state = c.state
  sndUna : c'.sndUna = c.sndUna
  sndNxt : c'.sndNxt = c.sndNxt
  sndWnd : c'.sndWnd = c.sndWnd
  rcvNxt : c'.rcvNxt = c.rcvNxt
  queue : c'.retransmitQueue = c.retransmitQueue
  pending : ∃ data, c'.sendPending = c.sendPending ++ data ∧
    (data ≠ [] → c.state.sends → c.sndWnd ≤ c.bytesInFlight)

theorem Idles.of_eq (c : TcpConnection) (buf : Bytes) (deadline : Option Instant)
    (rto : Duration) (recvCap sendCap : ℕ) :
    c.Idles { c with
      recvBuffer := buf
      probeDeadline := deadline
      probeRto := rto
      recvBufferCap := recvCap
      sendPendingCap := sendCap } :=
  ⟨rfl, rfl, rfl, rfl, rfl, rfl, [], (List.append_nil _).symm, fun hne ↦ absurd rfl hne⟩

theorem Idles.chunkLen (h : c.Idles c') (hchunk : c.state.sends → c.chunkLen = 0)
    (hst : c'.state.sends) : c'.chunkLen = 0 := by
  rw [h.state] at hst
  obtain ⟨data, hpending, hwnd⟩ := h.pending
  have hflight : c'.bytesInFlight = c.bytesInFlight := by
    unfold bytesInFlight
    rw [h.sndUna, h.sndNxt]
  rw [chunkLen_eq_zero_iff, hpending, h.sndWnd, hflight]
  by_cases hdata : data = []
  · rw [hdata, List.append_nil]
    exact chunkLen_eq_zero_iff.mp (hchunk hst)
  · exact .inr (hwnd hdata hst)

theorem step_of_passive (htw : c.state ≠ .timeWait) (hq : c.retransmitQueue = [])
    (hchunk : c.state.sends → c.chunkLen = 0) (hdefer : c.pendingClose → c.sendPending ≠ [])
    (hce : ce.Passive c) :
    c.Idles (c.step ce).1 ∧ ∀ m ∈ (c.step ce).2.out, m.origin = .probe := by
  have hnone : ∀ m ∈ ([] : List Emission), m.origin = .probe := fun m hm ↦ by cases hm
  cases ce with
  | segment | close => cases hce
  | recv | setRecvCap | setSendCap => exact ⟨Idles.of_eq c _ _ _ _ _, hnone⟩
  | tick now =>
      obtain ⟨⟨deadline, rto, htick⟩, hsent⟩ := tick_of_stuck now htw hq hchunk hdefer
      refine ⟨?_, hsent⟩
      change c.Idles (c.tick now).1
      rw [htick]
      exact Idles.of_eq c _ _ _ _ _
  | send now data =>
      obtain ⟨deadline, hflush⟩ := flushSend_of_stuck now
        (c := { c with sendPending := c.sendPending ++ c.acceptedPrefix data })
        (fun hst ↦ chunkLen_eq_zero_iff.mpr (.inr (hce hst)))
        (fun hclose ↦ List.append_ne_nil_of_left_ne_nil (hdefer hclose) _)
      change c.Idles (flushSend now _).1 ∧ ∀ m ∈ (flushSend now _).2, m.origin = .probe
      rw [hflush]
      exact ⟨⟨rfl, rfl, rfl, rfl, rfl, rfl, _, rfl, fun _ ↦ hce⟩, hnone⟩

end TcpConnection

/-- Nothing is in flight, nothing may be sent, and since `t` only probes were. -/
structure Track.Waits (t t' : Track) : Prop where
  state : t'.conn.state = t.conn.state
  sndUna : t'.conn.sndUna = t.conn.sndUna
  sndNxt : t'.conn.sndNxt = t.conn.sndNxt
  rcvNxt : t'.conn.rcvNxt = t.conn.rcvNxt
  queue : t'.conn.retransmitQueue = []
  blocked : t'.conn.state.sends → t'.conn.chunkLen = 0
  pending : t.conn.sendPending <+: t'.conn.sendPending
  probes : ∃ out, t'.hist.out = t.hist.out ++ out ∧ ∀ m ∈ out, m.origin = .probe

theorem Track.Waits.step {t t' : Track} {ce : ConnEvent} (h : t.Waits t')
    (hreach : t'.Reachable {}) (htw : t.conn.state ≠ .timeWait)
    (hce : ce.Passive t'.conn) : t.Waits (t'.step ce) := by
  obtain ⟨out, hout, hprobes⟩ := h.probes
  have hdefer (hclose : t'.conn.pendingClose) : t'.conn.sendPending ≠ [] :=
    (hreach.pendingClose hclose).1
  obtain ⟨hidles, hsent⟩ :=
    TcpConnection.step_of_passive (h.state ▸ htw) h.queue h.blocked hdefer hce
  obtain ⟨data, hpending, -⟩ := hidles.pending
  refine ⟨hidles.state.trans h.state, hidles.sndUna.trans h.sndUna,
    hidles.sndNxt.trans h.sndNxt, hidles.rcvNxt.trans h.rcvNxt, hidles.queue.trans h.queue,
    hidles.chunkLen h.blocked, h.pending.trans ⟨data, hpending.symm⟩,
    out ++ (t'.conn.step ce).2.out, ?_, fun m hm ↦ ?_⟩
  · change t'.hist.out ++ (t'.conn.step ce).2.out = _
    rw [hout, List.append_assoc]
  · exact (List.mem_append.mp hm).elim (hprobes m) (hsent m)

namespace Host

variable {h : Host} {k : ConnectionKey} {t : Track} {es : List TableEvent}

/-- Neither end moves the connection `k`, and nothing new is opened in its place. -/
def Left (k : ConnectionKey) (h : Host) (e : TableEvent) : Prop :=
  e.opened h.table k = none ∧
    ∀ t ce, h.tracks k = some t → e.on k = some ce → ce.Passive t.conn

/-- A connection that has nothing in flight and may send nothing stays in its state as
long as neither end moves it: however often the host ticks, only window probes leave,
and the bytes that wait for the window are kept. -/
theorem waits_for_peer (hh : h.Reachable {}) (ht : h.tracks k = some t)
    (hopen : t.conn.state ≠ .closed) (htw : t.conn.state ≠ .timeWait)
    (hq : t.conn.retransmitQueue = []) (hblocked : t.conn.state.sends → t.conn.chunkLen = 0)
    (hes : Run.Along (Left k) step h es) :
    ∃ t', (es.foldl step h).tracks k = some t' ∧ t.Waits t' := by
  have hkept := hes.invariant
    (P := fun h' ↦ h'.Reachable {} ∧ ∃ t', h'.tracks k = some t' ∧ t.Waits t') ?_ ?_
  · exact hkept.2
  · rintro h' e - ⟨hopened, hpassive⟩ ⟨hh', t', ht', hwaits⟩
    refine ⟨hh'.call e, ?_⟩
    have hafter : t.Waits (t'.after (e.on k)) := by
      cases hon : e.on k with
      | none => exact hwaits
      | some ce => exact hwaits.step (hh'.track ht') htw (hpassive t' ce ht' hon)
    exact ⟨_, tracks_of_open ht' hopened (hafter.state ▸ hopen), hafter⟩
  · exact ⟨hh, t, ht, rfl, rfl, rfl, rfl, hq, hblocked, List.prefix_refl _, [],
      (List.append_nil _).symm, fun m hm ↦ (List.not_mem_nil hm).elim⟩

/-- The peer answers the SYN with a closed window; an hour later the connection is still
there, with its three bytes. -/
theorem waits_for_peer_zero_window :
    ∃ (h : Host) (k : ConnectionKey) (t : Track),
      ([.tick (fromMillis 1800000), .tick (fromMillis 3600000)].foldl step h).tracks k = some t ∧
        t.conn.state = .established ∧ t.conn.retransmitQueue = [] ∧
        [1, 2, 3] <+: t.conn.sendPending := by
  let k : ConnectionKey := ⟨1, 49152, 2, 80⟩
  let synAck : Packet := ⟨2, 1, ⟨80, 49152, 500, 1001, 80, tcpSyn ||| tcpAck, 0, 0, 0⟩, []⟩
  let h : Host := ((new.step (.connect 0 1000 1 2 80)).step
    (.segment 0 0 synAck.ipHeader synAck.segment)).step (.send 0 k [1, 2, 3])
  have hh : h.Reachable {} := (((reachable_new {}).call _).call _).call _
  have hfacts : (h.tracks k).map (fun t ↦ (t.conn.state, t.conn.retransmitQueue.length,
      t.conn.chunkLen, t.conn.sendPending)) = some (.established, 0, 0, [1, 2, 3]) := by
    decide +kernel
  obtain ⟨t, ht, hval⟩ := Option.map_eq_some_iff.mp hfacts
  simp only [Prod.mk.injEq] at hval
  obtain ⟨hst, hq, hchunk, hpending⟩ := hval
  have hleft (h : Host) (now : Instant) : Left k h (.tick now) := by
    refine ⟨rfl, fun t ce _ hon ↦ ?_⟩
    obtain rfl := Option.some.inj hon
    trivial
  have hopen : t.conn.state ≠ .closed ∧ t.conn.state ≠ .timeWait := by
    rw [hst]
    exact ⟨TcpState.noConfusion, TcpState.noConfusion⟩
  obtain ⟨t', ht', hwaits⟩ := waits_for_peer hh ht hopen.1 hopen.2
    (List.length_eq_zero_iff.mp hq) (fun _ ↦ hchunk)
    (show Run.Along (Left k) step h
        [.tick (fromMillis 1800000), .tick (fromMillis 3600000)] from
      ⟨hleft _ _, hleft _ _, trivial⟩)
  exact ⟨h, k, t', ht', hwaits.state.trans hst, hwaits.queue, hpending ▸ hwaits.pending⟩

end Host

end MiniTcp
