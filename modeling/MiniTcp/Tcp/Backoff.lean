import MiniTcp.Tcp.Host
import MiniTcp.Tcp.States

/-!
# How often and how fast a segment is repeated

A `Ledger` keeps, next to the control block, the instants at which each segment was
transmitted: those of the segments that were acknowledged, and those of the segments in
the retransmission queue, in its order.  It is read off the segments a call sends and the
length of the queue it leaves.  Every entry of the queue agrees with its line in the
ledger, so the retry count is the number of repetitions and the timeout is the one that
belongs to it.  The clock is not assumed to be monotone.
-/

namespace MiniTcp

/-- The time that has to pass after the transmission with this number, from zero on. -/
def backoff (n : ℕ) : Duration := min (initialRto * 2 ^ n) maxRto

theorem backoff_succ (n : ℕ) : min (backoff n * 2) maxRto = backoff (n + 1) := by
  have hdouble : initialRto * 2 ^ (n + 1) = initialRto * 2 ^ n * 2 := by
    rw [pow_succ, mul_assoc]
  unfold backoff
  rw [hdouble]
  rcases le_total (initialRto * 2 ^ n) maxRto with h | h
  · rw [min_eq_left h]
  · have hbig : maxRto ≤ maxRto * 2 := Nat.le_mul_of_pos_right _ (by decide)
    rw [min_eq_right h, min_eq_right hbig, min_eq_right (hbig.trans (Nat.mul_le_mul_right 2 h))]

theorem backoff_pos (n : ℕ) : 0 < backoff n :=
  lt_min (Nat.mul_pos (by decide) (Nat.two_pow_pos n)) (by decide)

/-- `duration_since` is zero for an instant that lies ahead, so a timeout that has passed did
not start in the future. -/
theorem add_le_of_elapsed {sent rto now : ℕ} (hpos : 0 < rto) (h : rto ≤ now - sent) :
    sent + rto ≤ now := by
  omega

/-- The instants of one segment: at most seven, each of them after its timeout. -/
structure Spaced (log : List Instant) : Prop where
  length_le : log.length ≤ maxRetries + 1
  gap : ∀ i, (h : i + 1 < log.length) → log[i] + backoff i ≤ log[i + 1]

/-- The entry of the queue and its line in the ledger agree. -/
structure Booked (u : UnackedSegment) (log : List Instant) : Prop where
  length : log.length = u.retryCount + 1
  last : log.getLast? = some u.sentAt
  rto : u.rto = backoff u.retryCount
  spaced : Spaced log

namespace UnackedSegment

def Fresh (now : Instant) (u : UnackedSegment) : Prop :=
  u.sentAt = now ∧ u.rto = initialRto ∧ u.retryCount = 0

def resent (now : Instant) (u : UnackedSegment) : UnackedSegment :=
  { u with sentAt := now, rto := min (u.rto * 2) maxRto, retryCount := u.retryCount + 1 }

theorem Fresh.booked {u : UnackedSegment} {now : Instant} (h : u.Fresh now) : Booked u [now] := by
  obtain ⟨hsent, hrto, hretry⟩ := h
  have hzero : backoff 0 = initialRto := by decide
  refine ⟨by simp [hretry], by simp [hsent], by rw [hrto, hretry, hzero], by simp, ?_⟩
  intro i h
  simp at h

end UnackedSegment

theorem Booked.resent {u : UnackedSegment} {now : Instant} {log : List Instant}
    (h : Booked u log) (hdue : u.rto ≤ now - u.sentAt)
    (hleft : u.retryCount < maxRetries) : Booked (u.resent now) (log ++ [now]) := by
  have hlen := h.length
  refine ⟨?_, by simp [UnackedSegment.resent], ?_, ?_, ?_⟩
  · simp [UnackedSegment.resent, hlen]
  · change min (u.rto * 2) maxRto = backoff (u.retryCount + 1)
    rw [h.rto, backoff_succ]
  · rw [List.length_append, hlen]
    exact Nat.succ_le_succ hleft
  · intro i hi
    rw [List.length_append, List.length_singleton] at hi
    by_cases hold : i + 1 < log.length
    · rw [List.getElem_append_left (by omega), List.getElem_append_left hold]
      exact h.spaced.gap i hold
    · -- the new instant, after the timeout of the last one
      have hi' : i = u.retryCount := by omega
      have hlast : log[i] = u.sentAt := by
        have hget := h.last
        rw [List.getLast?_eq_getElem?, hlen, Nat.add_sub_cancel, ← hi',
          List.getElem?_eq_getElem (by omega)] at hget
        exact Option.some.inj hget
      have hpos := backoff_pos u.retryCount
      have hrto := h.rto
      have hnew : (log ++ [now])[i + 1] = now := by
        rw [List.getElem_append_right (by omega)]
        simp
      rw [hrto] at hdue
      rw [List.getElem_append_left (by omega), hlast, hnew, hi']
      exact add_le_of_elapsed hpos hdue

/-! ## What a call does to the queue -/

def Emission.transmits (m : Emission) : Bool := m.origin == .queued || m.origin == .retransmit

/-- How the queue changes while the segments `out` are sent at `now`. -/
inductive Transmits (now : Instant) :
    List UnackedSegment → List Emission → List UnackedSegment → Prop
  | nil (q : List UnackedSegment) : Transmits now q [] q
  | queued {q q' : List UnackedSegment} {out : List Emission} {m : Emission}
      (u : UnackedSegment) (hm : m.origin = .queued) (hu : u.Fresh now)
      (h : Transmits now (q ++ [u]) out q') : Transmits now q (m :: out) q'
  /-- only the front is repeated, and only while it has a retry left -/
  | resent {u : UnackedSegment} {q q' : List UnackedSegment} {out : List Emission} {m : Emission}
      (hm : m.origin = .retransmit) (hdue : u.rto ≤ now - u.sentAt)
      (hleft : u.retryCount < maxRetries)
      (h : Transmits now (u.resent now :: q) out q') : Transmits now (u :: q) (m :: out) q'
  | other {q q' : List UnackedSegment} {out : List Emission} {m : Emission}
      (hm : m.transmits = false) (h : Transmits now q out q') : Transmits now q (m :: out) q'

namespace Transmits

variable {now : Instant} {q q₁ q₂ : List UnackedSegment} {out out' : List Emission}

theorem trans (h : Transmits now q out q₁) (h' : Transmits now q₁ out' q₂) :
    Transmits now q (out ++ out') q₂ := by
  induction h with
  | nil q => exact h'
  | queued u hm hu _ ih => exact .queued u hm hu (ih h')
  | resent hm hdue hleft _ ih => exact .resent hm hdue hleft (ih h')
  | other hm _ ih => exact .other hm (ih h')

theorem of_silent (h : ∀ m ∈ out, m.transmits = false) : Transmits now q out q := by
  induction out with
  | nil => exact .nil q
  | cons m out ih =>
      rw [List.forall_mem_cons] at h
      exact .other h.1 (ih h.2)

theorem length_eq (h : Transmits now q out q₁) :
    q₁.length = q.length + out.countP Emission.queued := by
  induction h with
  | nil q => rfl
  | @queued q q' out m u hm hu _ ih =>
      have hq : m.queued = true := beq_iff_eq.mpr hm
      rw [ih, List.countP_cons_of_pos hq, List.length_append, List.length_singleton]
      omega
  | @resent u q q' out m hm hdue hleft _ ih =>
      have hq : ¬ m.queued = true := by simp [Emission.queued, hm]
      rw [ih, List.countP_cons_of_neg hq, List.length_cons, List.length_cons]
  | @other q q' out m hm _ ih =>
      have hq : ¬ m.queued = true := by
        intro h
        simp [Emission.transmits, beq_iff_eq.mp h] at hm
      rw [ih, List.countP_cons_of_neg hq]

end Transmits

namespace TcpConnection

variable {c : TcpConnection} {now : Instant} {seg : TcpHeader} {payload : Bytes}

theorem queueAndSend_transmits (now : Instant) (flags : UInt8) (data : Bytes) (c : TcpConnection) :
    Transmits now c.retransmitQueue (c.queueAndSend now flags data).2
      (c.queueAndSend now flags data).1.retransmitQueue :=
  .queued ⟨c.sndNxt, flags, data, now, initialRto, 0⟩ rfl ⟨rfl, rfl, rfl⟩ (.nil _)

theorem flushLoop_transmits (now : Instant) (fuel : ℕ) (c : TcpConnection) :
    Transmits now c.retransmitQueue (flushLoop now fuel c).2
      (flushLoop now fuel c).1.retransmitQueue := by
  induction fuel generalizing c with
  | zero => exact .nil _
  | succ fuel ih =>
      rw [flushLoop]
      split_ifs
      · exact .nil _
      · have hchunk : Transmits now c.retransmitQueue (c.sendChunk now c.chunkLen).2
            (c.sendChunk now c.chunkLen).1.retransmitQueue :=
          queueAndSend_transmits now _ _ c
        exact hchunk.trans (ih _)

theorem sendDeferredFin_transmits (now : Instant) (c : TcpConnection) :
    Transmits now c.retransmitQueue (c.sendDeferredFin now).2
      (c.sendDeferredFin now).1.retransmitQueue := by
  unfold sendDeferredFin
  split_ifs
  · split
    · exact queueAndSend_transmits now _ _ c
    · exact queueAndSend_transmits now _ _ c
    · exact .nil _
  · exact .nil _

theorem flushSend_transmits (now : Instant) (c : TcpConnection) :
    Transmits now c.retransmitQueue (c.flushSend now).2 (c.flushSend now).1.retransmitQueue := by
  cases hst : c.state.sends with
  | false =>
      rw [flushSend_of_not_sends now hst]
      exact .nil _
  | true =>
      obtain ⟨deadline, harm, -⟩ := armProbe_eq now c
      have hloop := flushLoop_transmits now c.sendPending.length (c.armProbe now)
      rw [flushSend_of_sends now hst]
      rw [harm] at hloop ⊢
      exact hloop.trans (sendDeferredFin_transmits now _)

theorem retransmitFront_transmits (hup : c.givesUp now = false) :
    Transmits now c.retransmitQueue (c.retransmitFront now).2
      (c.retransmitFront now).1.retransmitQueue := by
  unfold givesUp at hup
  unfold retransmitFront
  cases hq : c.retransmitQueue with
  | nil => simpa [hq] using Transmits.nil []
  | cons front rest =>
      rw [hq] at hup
      dsimp only at hup ⊢
      split_ifs with hdue
      · have hleft : front.retryCount < maxRetries := by
          simpa [hdue] using hup
        exact .resent rfl hdue hleft (.nil _)
      · rw [hq]
        exact .nil _

theorem tick_transmits (now : Instant) (c : TcpConnection) :
    Transmits now c.retransmitQueue (c.tick now).2 (c.tick now).1.retransmitQueue := by
  unfold tick
  by_cases htw : c.state = .timeWait
  · rw [if_pos htw]
    dsimp only
    split_ifs <;> exact .nil _
  · rw [if_neg htw]
    obtain ⟨deadline, rto, hprobe⟩ := tickProbe_eq now c
    have hq : (c.tickProbe now).1.retransmitQueue = c.retransmitQueue := by rw [hprobe]
    have hfirst : Transmits now c.retransmitQueue (c.tickProbe now).2
        (c.tickProbe now).1.retransmitQueue := by
      rw [hq]
      apply Transmits.of_silent
      intro m hm
      unfold tickProbe at hm
      split_ifs at hm
      · split at hm
        · split_ifs at hm
          · rw [List.mem_singleton] at hm
            rw [hm]
            rfl
          · cases hm
        · cases hm
      · cases hm
    dsimp only
    split_ifs with hup
    · exact hfirst
    · have hsecond := retransmitFront_transmits (Bool.not_eq_true _ ▸ hup)
      exact (hfirst.trans hsecond).trans (flushSend_transmits now _)

/-- The call takes acknowledged segments off the front of the queue, then sends `out`. -/
def Handles (now : Instant) (c : TcpConnection) (out : List Emission) (c' : TcpConnection) : Prop :=
  ∃ q, q <:+ c.retransmitQueue ∧ Transmits now q out c'.retransmitQueue

theorem processAck_suffix (c : TcpConnection) (seg : TcpHeader) :
    (c.processAck seg).retransmitQueue <:+ c.retransmitQueue := by
  unfold processAck removeAcked
  dsimp only
  split_ifs
  all_goals first | exact List.dropWhile_suffix _ | exact List.suffix_refl _

theorem receive_silent (c : TcpConnection) (seg : TcpHeader) (payload : Bytes) :
    ∀ m ∈ (c.receiveDataAndMaybeFin seg payload).out, m.transmits = false := by
  intro m hm
  rw [receive_out c seg payload m hm]
  rfl

theorem handles_receive {c₁ c' : TcpConnection} (hq : c₁.retransmitQueue <:+ c.retransmitQueue)
    (hc' : c'.retransmitQueue = (c₁.receiveDataAndMaybeFin seg payload).conn.retransmitQueue) :
    Handles now c (c₁.receiveDataAndMaybeFin seg payload).out c' := by
  refine ⟨_, hq, ?_⟩
  obtain ⟨nxt, buf, ooo, hrec⟩ := receive_eq c₁ seg payload
  rw [hc', hrec]
  exact .of_silent (receive_silent _ _ _)

theorem handles_silent {c' : TcpConnection} {out : List Emission}
    (hq : c'.retransmitQueue <:+ c.retransmitQueue) (hout : ∀ m ∈ out, m.transmits = false) :
    Handles now c out c' :=
  ⟨_, hq, .of_silent hout⟩

theorem Handles.flushSend {c' : TcpConnection} {out : List Emission} (h : Handles now c out c') :
    Handles now c (out ++ (c'.flushSend now).2) (c'.flushSend now).1 := by
  obtain ⟨q, hq, htrans⟩ := h
  exact ⟨q, hq, htrans.trans (flushSend_transmits now c')⟩

theorem Handles.flush {c' : TcpConnection} (h : Handles now c [] c') :
    Handles now c (c'.flushSend now).2 (c'.flushSend now).1 := by
  have hflush := h.flushSend
  rwa [List.nil_append] at hflush

theorem processSegment_handles (now : Instant) (c : TcpConnection) (seg : TcpHeader)
    (payload : Bytes) :
    Handles now c (c.processSegment now seg payload).out
      (c.processSegment now seg payload).conn := by
  have hnone : ∀ m ∈ ([] : List Emission), m.transmits = false := by
    intro m hm
    cases hm
  have hack (c' : TcpConnection) : ∀ m ∈ [c'.sendAckOnly], m.transmits = false := by
    intro m hm
    rw [List.mem_singleton.mp hm]
    rfl
  have hsame : Handles now c [] c := handles_silent (List.suffix_refl _) hnone
  unfold processSegment
  split_ifs with hrst
  · exact handles_silent (List.suffix_refl _) hnone
  · cases hs : c.state with
    | synSent =>
        simp only [synSentSegment]
        split_ifs
        · exact handles_silent (List.dropWhile_suffix _) (hack _)
        · exact hsame
    | synRcvd =>
        simp only [synRcvdSegment]
        split_ifs
        · exact handles_receive (List.dropWhile_suffix _) rfl
        · exact handles_receive (List.dropWhile_suffix _) rfl
        · exact handles_silent (List.dropWhile_suffix _) hnone
        · exact hsame
    | established =>
        have hrec : Handles now c ((c.processAck seg).receiveDataAndMaybeFin seg payload).out
            (if ((c.processAck seg).receiveDataAndMaybeFin seg payload).fin then
              { ((c.processAck seg).receiveDataAndMaybeFin seg payload).conn with
                state := .closeWait }
            else ((c.processAck seg).receiveDataAndMaybeFin seg payload).conn) :=
          handles_receive (processAck_suffix c seg) (by split_ifs <;> rfl)
        simp only [establishedSegment]
        exact hrec.flushSend
    | finWait1 =>
        refine handles_receive (processAck_suffix c seg) ?_
        dsimp only [finWait1Segment]
        split_ifs <;> rfl
    | finWait2 =>
        refine handles_receive (processAck_suffix c seg) ?_
        dsimp only [finWait2Segment]
        split_ifs <;> rfl
    | closing =>
        simp only [closingSegment]
        split_ifs <;> exact handles_silent (processAck_suffix c seg) hnone
    | closeWait =>
        have hproc : Handles now c [] (c.processAck seg) :=
          handles_silent (processAck_suffix c seg) hnone
        exact hproc.flush
    | lastAck =>
        simp only [lastAckSegment]
        split_ifs <;> exact handles_silent (processAck_suffix c seg) hnone
    | timeWait =>
        simp only [timeWaitSegment]
        split_ifs
        · exact handles_silent (List.suffix_refl _) (hack c)
        · exact hsame
    | closed | listen => exact hsame

end TcpConnection

/-- The instant a call reads; the other calls send nothing. -/
def ConnEvent.time : ConnEvent → Instant
  | .segment now _ _ => now
  | .tick now => now
  | .send now _ => now
  | .close now => now
  | .recv _ | .setRecvCap _ | .setSendCap _ => 0

theorem TcpConnection.step_handles (c : TcpConnection) (e : ConnEvent) :
    Handles e.time c (c.step e).2.out (c.step e).1 := by
  have hsame (now : Instant) (c' : TcpConnection) (hq : c'.retransmitQueue = c.retransmitQueue) :
      Handles now c [] c' :=
    ⟨_, List.suffix_refl _, hq ▸ .nil _⟩
  cases e with
  | segment now seg payload => exact processSegment_handles now c seg payload
  | tick now => exact ⟨_, List.suffix_refl _, tick_transmits now c⟩
  | send now data =>
      have haccept := hsame now { c with sendPending := c.sendPending ++ c.acceptedPrefix data } rfl
      exact haccept.flush
  | close now =>
      change Handles now c (c.close now).2 (c.close now).1
      unfold close
      split
      · exact (hsame now { c with pendingClose := true } rfl).flush
      · exact (hsame now { c with pendingClose := true } rfl).flush
      · exact hsame now _ rfl
      · exact hsame now _ rfl
      · exact hsame now _ rfl
  | recv len | setRecvCap cap | setSendCap cap => exact hsame _ _ rfl

/-! ## The ledger -/

/-- A control block with the instants at which its segments were transmitted. -/
structure Ledger where
  conn : TcpConnection
  /-- of the segments taken off the queue -/
  past : List (List Instant)
  /-- of the segments in the queue, front first -/
  live : List (List Instant)

namespace Ledger

def record (now : Instant) (live : List (List Instant)) (m : Emission) : List (List Instant) :=
  match m.origin with
  | .queued => live ++ [[now]]
  | .retransmit => live.modifyHead fun log ↦ log ++ [now]
  | .probe | .ack | .rst => live

/-- How many segments the call took off the queue. -/
def acked (l : Ledger) (e : ConnEvent) : ℕ :=
  l.live.length + (l.conn.step e).2.out.countP Emission.queued -
    (l.conn.step e).1.retransmitQueue.length

def step (l : Ledger) (e : ConnEvent) : Ledger where
  conn := (l.conn.step e).1
  past := l.past ++ l.live.take (l.acked e)
  live := (l.conn.step e).2.out.foldl (record e.time) (l.live.drop (l.acked e))

/-- The ledger of a connection that was just opened: its SYN was sent. -/
def opening (now : Instant) (c : TcpConnection) : Ledger where
  conn := c
  past := []
  live := [[now]]

/-- The queue and the ledger agree line by line, and only the front was ever repeated. -/
structure Balanced (queue : List UnackedSegment) (live : List (List Instant)) : Prop where
  booked : List.Forall₂ Booked queue live
  rest : ∀ u ∈ queue.tail, u.retryCount = 0

theorem Balanced.suffix {q queue : List UnackedSegment} {live : List (List Instant)}
    (h : Balanced queue live) (hq : q <:+ queue) :
    Balanced q (live.drop (live.length - q.length)) := by
  have hlen := h.booked.length_eq
  have hdrop := List.suffix_iff_eq_drop.mp hq
  constructor
  · have hbook := List.forall₂_drop (queue.length - q.length) h.booked
    rwa [← hdrop, hlen] at hbook
  · intro u hu
    obtain ⟨pre, rfl⟩ := hq
    cases pre with
    | nil => exact h.rest u hu
    | cons v pre =>
        exact h.rest u (List.mem_append_right _ (List.mem_of_mem_tail hu))

theorem Balanced.transmits {now : Instant} {q q' : List UnackedSegment} {out : List Emission}
    {live : List (List Instant)} (ht : Transmits now q out q') (h : Balanced q live) :
    Balanced q' (out.foldl (record now) live) := by
  induction ht generalizing live with
  | nil q => exact h
  | @queued q q' out m u hm hu _ ih =>
      have hrec : record now live m = live ++ [[now]] := by
        rw [record, hm]
      rw [List.foldl_cons, hrec]
      refine ih ⟨?_, ?_⟩
      · exact List.rel_append h.booked (.cons hu.booked .nil)
      · intro v hv
        cases q with
        | nil => cases hv
        | cons w q =>
            rcases List.mem_append.mp hv with hv | hv
            · exact h.rest v hv
            · rw [List.mem_singleton.mp hv]
              exact hu.2.2
  | @resent u q q' out m hm hdue hleft _ ih =>
      obtain ⟨hbook, hrest⟩ := h
      cases hbook with
      | @cons _ log _ logs hu hq =>
          have hrec : record now (log :: logs) m = (log ++ [now]) :: logs := by
            rw [record, hm]
            rfl
          rw [List.foldl_cons, hrec]
          exact ih ⟨.cons (hu.resent hdue hleft) hq, hrest⟩
  | @other q q' out m hm _ ih =>
      have hrec : record now live m = live := by
        unfold record
        cases ho : m.origin with
        | queued | retransmit => simp [Emission.transmits, ho] at hm
        | probe | ack | rst => rfl
      rw [List.foldl_cons, hrec]
      exact ih h

theorem Balanced.spaced {queue : List UnackedSegment} {live : List (List Instant)}
    (h : Balanced queue live) : ∀ log ∈ live, Spaced log := by
  have hbook := h.booked
  clear h
  induction hbook with
  | nil =>
      intro log hlog
      cases hlog
  | cons hu _ ih =>
      intro log hlog
      rcases List.mem_cons.mp hlog with rfl | hlog
      · exact hu.spaced
      · exact ih log hlog

structure Kept (l : Ledger) : Prop where
  balanced : Balanced l.conn.retransmitQueue l.live
  past : ∀ log ∈ l.past, Spaced log

variable {l : Ledger}

theorem Kept.step (h : l.Kept) (e : ConnEvent) : (l.step e).Kept := by
  obtain ⟨q, hq, ht⟩ := l.conn.step_handles e
  have hacked : l.acked e = l.live.length - q.length := by
    unfold acked
    rw [ht.length_eq]
    omega
  constructor
  · change Balanced _ ((l.conn.step e).2.out.foldl (record e.time) (l.live.drop (l.acked e)))
    rw [hacked]
    exact (h.balanced.suffix hq).transmits ht
  · intro log hlog
    rcases List.mem_append.mp hlog with hlog | hlog
    · exact h.past log hlog
    · exact h.balanced.spaced log (List.mem_of_mem_take hlog)

theorem kept_opening {now : Instant} {c : TcpConnection} {u : UnackedSegment}
    (hq : c.retransmitQueue = [u]) (hu : u.Fresh now) : (opening now c).Kept := by
  constructor
  · change Balanced c.retransmitQueue [[now]]
    rw [hq]
    refine ⟨.cons hu.booked .nil, ?_⟩
    intro v hv
    cases hv
  · intro log hlog
    cases hlog

theorem Kept.spaced (h : l.Kept) : ∀ log ∈ l.past ++ l.live, Spaced log := by
  intro log hlog
  rcases List.mem_append.mp hlog with hlog | hlog
  · exact h.past log hlog
  · exact h.balanced.spaced log hlog

theorem Kept.queue (h : l.Kept) :
    ∀ u ∈ l.conn.retransmitQueue, u.retryCount ≤ maxRetries ∧ u.rto = backoff u.retryCount := by
  have hbook := h.balanced.booked
  generalize l.conn.retransmitQueue = queue at hbook
  generalize l.live = live at hbook
  induction hbook with
  | nil =>
      intro u hu
      cases hu
  | cons hb _ ih =>
      intro u hu
      rcases List.mem_cons.mp hu with rfl | hu
      · have hle := hb.spaced.length_le
        rw [hb.length] at hle
        exact ⟨Nat.le_of_succ_le_succ hle, hb.rto⟩
      · exact ih u hu

/-- A tick gives a connection up only after the last timeout of a front that was sent seven
times. -/
theorem Kept.tick (h : l.Kept) {now : Instant} (hopen : l.conn.state ≠ .closed)
    (htw : l.conn.state ≠ .timeWait) (hclosed : (l.conn.tick now).1.state = .closed) :
    ∃ log, l.live.head? = some log ∧ log.length = maxRetries + 1 ∧
      ∃ last ∈ log.getLast?, last + maxRto ≤ now := by
  obtain ⟨deadline, rto, hprobe⟩ := TcpConnection.tickProbe_eq now l.conn
  obtain ⟨queue, hfront⟩ := TcpConnection.retransmitFront_eq now (l.conn.tickProbe now).1
  cases hup : (l.conn.tickProbe now).1.givesUp now with
  | false =>
      -- it goes on: retransmission and flush do not close it
      have htick : (l.conn.tick now).1 =
          (((l.conn.tickProbe now).1.retransmitFront now).1.flushSend now).1 := by
        unfold TcpConnection.tick
        rw [if_neg htw]
        dsimp only
        rw [hup]
        rfl
      have hstate : ((l.conn.tickProbe now).1.retransmitFront now).1.state = l.conn.state := by
        rw [hfront, hprobe]
      rw [htick] at hclosed
      rcases TcpConnection.flushSend_state now ((l.conn.tickProbe now).1.retransmitFront now).1 with
        hs | ⟨-, hs | hs⟩
      · exact absurd (hstate.symm.trans (hs.symm.trans hclosed)) hopen
      · rw [hclosed] at hs
        cases hs
      · rw [hclosed] at hs
        cases hs
  | true =>
      have hgives : l.conn.givesUp now = true := by
        rw [hprobe] at hup
        exact hup
      have hbook := h.balanced.booked
      unfold TcpConnection.givesUp at hgives
      cases hq : l.conn.retransmitQueue with
      | nil =>
          rw [hq] at hgives
          cases hgives
      | cons front rest =>
          rw [hq] at hgives hbook
          dsimp only at hgives
          rw [Bool.and_eq_true, decide_eq_true_eq, decide_eq_true_eq] at hgives
          obtain ⟨hdue, hlast⟩ := hgives
          generalize hlive : l.live = live at hbook
          cases hbook with
          | @cons _ log _ logs hb _ =>
              have hle := hb.spaced.length_le
              have hlen := hb.length
              have hretry : front.retryCount = maxRetries := by omega
              have hrto : front.rto = maxRto := by
                rw [hb.rto, hretry]
                decide
              refine ⟨log, rfl, by rw [hlen, hretry], front.sentAt, hb.last, ?_⟩
              rw [hrto] at hdue
              exact add_le_of_elapsed (by decide) hdue

def after (l : Ledger) : Option ConnEvent → Ledger
  | some e => l.step e
  | none => l

theorem conn_after (l : Ledger) (e : Option ConnEvent) : (l.after e).conn = l.conn.after e := by
  cases e <;> rfl

theorem Kept.after (h : l.Kept) (e : Option ConnEvent) : (l.after e).Kept := by
  cases e with
  | none => exact h
  | some e => exact h.step e

end Ledger

/-! ## The ledgers of a table -/

/-- The instant at which a call opens a connection. -/
def TableEvent.time : TableEvent → Instant
  | .segment now _ _ _ => now
  | .connect now _ _ _ _ => now
  | .tick now => now
  | .send now _ _ => now
  | .close now _ => now
  | .listen .. | .accept .. | .recv .. | .setRecvCap .. | .setSendCap .. => 0

/-- The one segment in the queue of a connection just opened was sent by that call. -/
theorem TableEvent.opened_queue {t : TcpTable} {k : ConnectionKey} {e : TableEvent} {tr : Track}
    (h : e.opened t k = some tr) : ∃ u, tr.conn.retransmitQueue = [u] ∧ u.Fresh e.time := by
  cases opened_cases h with
  | segment | connect => exact ⟨_, rfl, rfl, rfl, rfl⟩

/-- A table with the ledger of each of its connections, and the ledgers of the connections
that were removed or replaced. -/
structure Books where
  table : TcpTable
  ledgers : ConnectionKey → Option Ledger
  archive : ConnectionKey → List Ledger
  agree : ∀ k, table.lookup k = (ledgers k).map Ledger.conn

namespace Books

theorem lookup_new (k : ConnectionKey) :
    TcpTable.new.lookup k = (none : Option Ledger).map Ledger.conn := rfl

def new : Books where
  table := TcpTable.new
  ledgers _ := none
  archive _ := []
  agree := lookup_new

variable {b : Books} {e : TableEvent} {k : ConnectionKey} {l : Ledger}

/-- The call leaves no connection under `k`, or another one. -/
def ends (b : Books) (e : TableEvent) (k : ConnectionKey) : Bool :=
  ((b.table.step e).1.lookup k).isNone || (e.opened b.table k).isSome

def nextLedger (b : Books) (e : TableEvent) (k : ConnectionKey) : Option Ledger :=
  if ((b.table.step e).1.lookup k).isNone then none
  else ((e.opened b.table k).map fun tr ↦ .opening e.time tr.conn).or
    ((b.ledgers k).map fun l ↦ l.after (e.on k))

theorem nextLedger_agree (b : Books) (e : TableEvent) (k : ConnectionKey) :
    (b.table.step e).1.lookup k = (b.nextLedger e k).map Ledger.conn := by
  unfold nextLedger
  cases hlook : (b.table.step e).1.lookup k with
  | none => rfl
  | some c' =>
      rw [if_neg (by simp)]
      rcases TcpTable.lookup_step hlook with ⟨tr, htr, rfl⟩ | ⟨hnone, c, hc, rfl⟩
      · rw [htr]
        rfl
      · rw [b.agree] at hc
        obtain ⟨l, hl, rfl⟩ := Option.map_eq_some_iff.mp hc
        rw [hnone, hl]
        exact congrArg some (l.conn_after _).symm

def step (b : Books) (e : TableEvent) : Books where
  table := (b.table.step e).1
  ledgers := b.nextLedger e
  archive k := b.archive k ++
    if b.ends e k then ((b.ledgers k).map fun l ↦ l.after (e.on k)).toList else []
  agree := b.nextLedger_agree e

def Reachable : Books → Prop := Run.Reaches (· = new) (fun _ _ ↦ True) step

/-- The ledgers under `k`, the present one and those in the archive. -/
def Holds (b : Books) (k : ConnectionKey) (l : Ledger) : Prop :=
  b.ledgers k = some l ∨ l ∈ b.archive k

theorem kept_step (h : ∀ k l, b.Holds k l → l.Kept) (hl : (b.step e).Holds k l) : l.Kept := by
  rcases hl with hl | hl
  · change b.nextLedger e k = some l at hl
    unfold nextLedger at hl
    split_ifs at hl
    cases hopen : e.opened b.table k with
    | some tr =>
        rw [hopen] at hl
        obtain ⟨u, hq, hu⟩ := TableEvent.opened_queue hopen
        rw [← Option.some.inj hl]
        exact Ledger.kept_opening hq hu
    | none =>
        rw [hopen, Option.map_none, Option.none_or] at hl
        obtain ⟨l₀, hl₀, rfl⟩ := Option.map_eq_some_iff.mp hl
        exact (h k l₀ (.inl hl₀)).after _
  · rcases List.mem_append.mp hl with hl | hl
    · exact h k l (.inr hl)
    · split_ifs at hl
      · rw [Option.mem_toList] at hl
        obtain ⟨l₀, hl₀, rfl⟩ := Option.map_eq_some_iff.mp hl
        exact (h k l₀ (.inl hl₀)).after _
      · cases hl

theorem Reachable.kept (h : b.Reachable) : ∀ k l, b.Holds k l → l.Kept := by
  refine Run.Reaches.invariant (P := fun b : Books ↦ ∀ k l, b.Holds k l → l.Kept) ?_ ?_ h
  · rintro b rfl k l (hl | hl) <;> cases hl
  · intro b e _ _ hb k l hl
    exact kept_step hb hl

/-- Every entry of a queue carries the timeout of its retry count, only the front was ever
repeated, every segment was sent at most seven times and each time after the timeout of the
time before, and a tick gives up only after the seventh. -/
theorem backoff_law (hb : b.Reachable) :
    (∀ k l, b.Holds k l → ∀ log ∈ l.past ++ l.live, log.length ≤ 7 ∧
      ∀ i, (h : i + 1 < log.length) → log[i] + backoff i ≤ log[i + 1]) ∧
    ∀ k c, b.table.lookup k = some c → ∃ l, b.ledgers k = some l ∧ l.conn = c ∧
      (∀ u ∈ c.retransmitQueue, u.retryCount ≤ 6 ∧ u.rto = backoff u.retryCount) ∧
      (∀ u ∈ c.retransmitQueue.tail, u.retryCount = 0) ∧
      List.Forall₂ (fun u log ↦ log.length = u.retryCount + 1 ∧ log.getLast? = some u.sentAt)
        c.retransmitQueue l.live ∧
      ∀ now, c.state ≠ .closed → c.state ≠ .timeWait → (c.tick now).1.state = .closed →
        ∃ log, l.live.head? = some log ∧ log.length = 7 ∧
          ∃ last ∈ log.getLast?, last + fromMillis 8000 ≤ now := by
  constructor
  · intro k l hl log hlog
    have hsp := (hb.kept k l hl).spaced log hlog
    exact ⟨hsp.length_le, hsp.gap⟩
  · intro k c hc
    rw [b.agree] at hc
    obtain ⟨l, hl, rfl⟩ := Option.map_eq_some_iff.mp hc
    have hkept := hb.kept k l (.inl hl)
    refine ⟨l, hl, rfl, hkept.queue, hkept.balanced.rest, ?_, ?_⟩
    · exact hkept.balanced.booked.imp fun _ _ hu ↦ ⟨hu.length, hu.last⟩
    · intro now hopen htw hclosed
      exact hkept.tick hopen htw hclosed

/-- A SYN that nobody answers: six repetitions, then the connection is given up. -/
theorem backoff_law_unanswered :
    ∃ (b : Books) (c : TcpConnection) (l : Ledger),
      b.table.lookup ⟨1, 49152, 2, 80⟩ = some c ∧ c.state = .synSent ∧
      (c.tick (fromMillis 31500)).1.state = .closed ∧ b.ledgers ⟨1, 49152, 2, 80⟩ = some l ∧
      l.live = [[0, 500, 1500, 3500, 7500, 15500, 23500].map fromMillis] ∧
      ∃ log, l.live.head? = some log ∧ log.length = 7 ∧
        ∃ last ∈ log.getLast?, last + fromMillis 8000 ≤ fromMillis 31500 := by
  let k : ConnectionKey := ⟨1, 49152, 2, 80⟩
  let b₀ := Books.new.step (.connect 0 1000 1 2 80)
  let b := ([500, 1500, 3500, 7500, 15500, 23500].map fun n ↦ TableEvent.tick (fromMillis n)).foldl
    Books.step b₀
  have hreach : b.Reachable :=
    .tail _ (.tail _ (.tail _ (.tail _ (.tail _ (.tail _ (.tail _ (.start rfl) trivial) trivial)
      trivial) trivial) trivial) trivial) trivial
  have hfacts : (b.ledgers k).map (fun l ↦ (l.conn.state,
      (l.conn.tick (fromMillis 31500)).1.state, l.live)) = some (.synSent, .closed,
        [[0, 500, 1500, 3500, 7500, 15500, 23500].map fromMillis]) := by
    decide +kernel
  obtain ⟨l, hl, hval⟩ := Option.map_eq_some_iff.mp hfacts
  obtain ⟨hst, hrest⟩ := Prod.mk.inj hval
  obtain ⟨hclosed, hlive⟩ := Prod.mk.inj hrest
  have hc : b.table.lookup k = some l.conn := by
    rw [b.agree, hl]
    rfl
  obtain ⟨l', hl', -, -, -, -, htick⟩ := (backoff_law hreach).2 k l.conn hc
  rw [hl] at hl'
  obtain rfl := Option.some.inj hl'
  refine ⟨b, l.conn, l, hc, hst, hclosed, hl, hlive, ?_⟩
  refine htick _ ?_ ?_ hclosed
  · rw [hst]
    decide
  · rw [hst]
    decide

end Books

end MiniTcp
