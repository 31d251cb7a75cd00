import MiniTcp.Tcp.Renumber

/-!
# Independence of the initial sequence numbers

The initial number of either side is random, so a wrap can fall into any connection,
however short.  Two runs whose numbers differ by a fixed shift stay in step as long as
no number wraps in either of them; a run that wraps can come out differently.
-/

namespace MiniTcp

open Serial

/-- A peer that acknowledges nothing but what was sent and numbers nothing below its
own SYN, both in the plain order. -/
def plainNumbers : Guard where
  ack c seg := c.iss ≤ seg.ackNum ∧ seg.ackNum ≤ c.sndNxt
  data c seg _ := c.irs ≤ seg.seqNum

theorem plainNumbers_acksSent : Guard.AcksSent plainNumbers := fun _ _ h ↦ h.2

namespace Track

variable {t : Track} {d e : UInt32} {ev : ConnEvent} {g : Guard}

/-- No number has wrapped: what was sent and what was taken in ends below `2 ^ 32`, and
the next segment's numbers are in order. -/
structure Unwrapped (t : Track) (ev : ConnEvent) : Prop where
  sent : t.NoWrap
  taken : t.conn.irs.toNat + (t.received.length + 2) < 2 ^ 32
  event : plainNumbers.Admits t.conn ev

theorem Unwrapped.segment {now : Instant} {seg : TcpHeader} {payload : Bytes} (hw : t.NoWrap)
    (htaken : t.conn.irs.toNat + (t.received.length + 2) < 2 ^ 32)
    (hack : t.conn.iss ≤ seg.ackNum ∧ seg.ackNum ≤ t.conn.sndNxt)
    (hseq : t.conn.irs ≤ seg.seqNum) : t.Unwrapped (.segment now seg payload) := by
  refine ⟨hw, htaken, fun _ ↦ hack, fun _ c' hin ↦ ?_⟩
  have hirs : c'.irs = t.conn.irs := congrArg TcpConnection.Inbound.irs hin
  change c'.irs ≤ seg.seqNum
  rwa [hirs]

theorem Unwrapped.iss_le (h : t.Unwrapped ev) (hr : t.Reachable plainNumbers) :
    t.conn.iss ≤ t.conn.sndUna ∧ ∀ u ∈ t.conn.retransmitQueue, t.conn.iss ≤ u.endSeq := by
  have hq := hr.queueAt plainNumbers_acksSent h.sent
  have hle := hq.iss_le
  refine ⟨UInt32.le_iff_toNat_le.mpr hle, fun u hu ↦ UInt32.le_iff_toNat_le.mpr ?_⟩
  obtain ⟨a, -, htiles⟩ := hq.tiles
  have hreach := hq.reaches u hu
  have hend := htiles.bounds hu
  have hnxt := t.conn.sndNxt.toNat_lt
  rw [UnackedSegment.toNat_endSeq (by omega)]
  omega

theorem Unwrapped.irs_le (h : t.Unwrapped ev) (hr : t.Reachable plainNumbers)
    (hsyn : t.hist.syn = true) : t.conn.irs ≤ t.conn.rcvNxt := by
  have htaken := h.taken
  have hfin := Bool.toNat_le t.hist.fin
  rw [(hr.rcvCount.2 hsyn).2.2, UInt32.le_iff_toNat_le, toNat_shift]
  · omega
  · change _ + (1 + (t.received.length + _)) < _
    omega

/-- The same life with other initial numbers; the peer's is known only once its SYN
was taken. -/
def renumber (d e : UInt32) (t : Track) : Track where
  conn := t.conn.renumber d (if t.hist.syn then e else 0)
  hist := t.hist.renumber d e
  seen := t.seen.map (TcpHeader.renumber d e)
  finAcked := t.finAcked
  beforeFin := t.beforeFin

theorem finCount_renumber (d e : UInt32) (out : List Emission) :
    finCount (out.map (Emission.renumber d e)) = finCount out := by
  rw [finCount, List.countP_map]
  rfl

theorem sameOrder (hr : t.Reachable plainNumbers)
    (hr' : (t.renumber d e).Reachable plainNumbers) (h : t.Unwrapped ev)
    (h' : (t.renumber d e).Unwrapped (ev.renumber d e)) {seg : TcpHeader}
    (hseg : seg ∈ ev.header) :
    TcpConnection.SameOrder d (if t.hist.syn then e else 0) t.conn seg := by
  cases ev with
  | segment now seg payload =>
      obtain rfl := Option.some.inj hseg
      obtain ⟨huna, hqueue⟩ := h.iss_le hr
      obtain ⟨huna', hqueue'⟩ := h'.iss_le hr'
      have hack (htakes : t.conn.TakesAck seg) :
          t.conn.iss ≤ seg.ackNum ∧ t.conn.iss + d ≤ seg.ackNum + d := by
        obtain ⟨hflag, hrst, hstate⟩ := htakes
        refine ⟨(h.event.1 ⟨hflag, hrst, hstate⟩).1, (h'.event.1 ⟨hflag, hrst, ?_⟩).1⟩
        rcases hstate with hst | ⟨hst, heq⟩
        · exact .inl hst
        · exact .inr ⟨hst, congrArg (· + d) heq⟩
      refine ⟨fun htakes ↦ ?_, fun htakes u hu ↦ ?_, fun htakes ↦ ?_⟩
      · obtain ⟨hle, hle'⟩ := hack htakes
        rw [← UInt32.not_le, ← UInt32.not_le, Serial.add_le_add_iff hle huna hle' huna']
      · obtain ⟨hle, hle'⟩ := hack htakes
        have hend : t.conn.iss + d ≤ u.endSeq + d := by
          have hmem := hqueue' _ (List.mem_map_of_mem hu)
          have hmove : (u.renumber d).endSeq = u.endSeq + d := add_right_comm _ _ _
          rwa [hmove] at hmem
        exact Serial.add_le_add_iff (hqueue u hu) hle hend hle'
      · have hsyn : t.hist.syn = true := by
          by_contra hne
          obtain ⟨-, hstate⟩ := htakes
          rcases (hr.rcvCount.1 (by simpa using hne)).state with hs | hs <;>
            simp [hs, TcpState.receives] at hstate
        have hle := h.irs_le hr hsyn
        have hle' := h'.irs_le hr' hsyn
        have hdata : t.conn.irs ≤ seg.seqNum := h.event.2 htakes t.conn rfl
        have htakes' : (t.renumber d e).conn.TakesData (seg.renumber d e) := by
          refine ⟨htakes.1, ?_⟩
          rcases htakes.2 with hst | ⟨hst, hflag, heq⟩
          · exact .inl hst
          · exact .inr ⟨hst, hflag, congrArg (· + d) heq⟩
        have hdata' : (t.renumber d e).conn.irs ≤ seg.seqNum + e :=
          h'.event.2 htakes' (t.renumber d e).conn rfl
        simp only [renumber, TcpConnection.renumber, hsyn, if_true] at hle' hdata' ⊢
        rw [← UInt32.not_le, ← UInt32.not_le, Serial.add_le_add_iff hdata hle hdata' hle']
  | _ => cases hseg

theorem conn_step_renumber (hr : t.Reachable plainNumbers)
    (hr' : (t.renumber d e).Reachable plainNumbers) (h : t.Unwrapped ev)
    (h' : (t.renumber d e).Unwrapped (ev.renumber d e)) :
    (t.renumber d e).conn.step (ev.renumber d e) =
      ((t.conn.step ev).1.renumber d (if (t.step ev).hist.syn then e else 0),
        (t.conn.step ev).2.renumber d e) := by
  have hord (seg : TcpHeader) (hseg : seg ∈ ev.header) := sameOrder hr hr' h h' hseg
  have hcount := (hr.step h.event).rcvCount
  change (t.conn.renumber d (if t.hist.syn then e else 0)).step (ev.renumber d e) =
    ((t.conn.step ev).1.renumber d (if t.hist.syn || (t.conn.step ev).2.syn then e else 0), _)
  cases hsyn : t.hist.syn with
  | true =>
      simp only [hsyn, if_true] at hord
      exact TcpConnection.step_renumber fun seg hseg ↦
        ⟨(hr.rcvCount.2 hsyn).1, hord seg hseg⟩
  | false =>
      refine TcpConnection.step_renumber_unsynchronized (hr.rcvCount.1 hsyn)
        (fun seg hseg ↦ (hord seg hseg).ends) fun hno m hm ↦ ?_
      have hstill : (t.step ev).hist.syn = false := by
        change (t.hist.syn || (t.conn.step ev).2.syn) = false
        rw [hsyn, hno]
        rfl
      exact (hcount.1 hstill).out m (List.mem_append_right _ hm)

theorem step_renumber (hr : t.Reachable plainNumbers)
    (hr' : (t.renumber d e).Reachable plainNumbers) (h : t.Unwrapped ev)
    (h' : (t.renumber d e).Unwrapped (ev.renumber d e)) :
    (t.renumber d e).step (ev.renumber d e) = (t.step ev).renumber d e := by
  have hconn := conn_step_renumber hr hr' h h'
  have hheader : (ev.renumber d e).header = ev.header.map (TcpHeader.renumber d e) := by
    cases ev <;> rfl
  have hfin : (t.renumber d e).finSent = t.finSent := by
    unfold finSent
    exact congrArg (· != 0) (finCount_renumber d e t.hist.out)
  have hacks : (ev.renumber d e).header.any (acknowledges (t.renumber d e).conn.sndNxt) =
      ev.header.any (acknowledges t.conn.sndNxt) := by
    rw [hheader]
    cases ev.header with
    | none => rfl
    | some seg =>
        exact congrArg (hasFlag seg.flags tcpAck && ·)
          (TcpConnection.ackNum_beq_renumber t.conn seg)
  have hhist : (t.renumber d e).hist + (t.conn.step ev).2.renumber d e =
      (t.hist + (t.conn.step ev).2).renumber d e := by
    apply Effect.ext <;> simp [renumber, Effect.renumber]
  have hseen : (ev.header.map (TcpHeader.renumber d e)).toList =
      ev.header.toList.map (TcpHeader.renumber d e) := by
    cases ev.header <;> rfl
  unfold step
  rw [hconn, hfin, hacks, hhist, hheader, hseen]
  change Track.mk _ _ (t.seen.map _ ++ _) _ _ = Track.mk _ _ ((t.seen ++ _).map _) _ _
  rw [List.map_append]
  rfl

/-- How a connection comes into being. -/
inductive Opening where
  | active (now : Instant) (iss : UInt32) (key : ConnectionKey)
  | passive (now : Instant) (iss : UInt32) (key : ConnectionKey) (seg : TcpHeader)

namespace Opening

def track : Opening → Track
  | .active now iss key => .active now iss key
  | .passive now iss key seg => .passive now iss key seg

def renumber (d e : UInt32) : Opening → Opening
  | .active now iss key => .active now (iss + d) key
  | .passive now iss key seg => .passive now (iss + d) key (seg.renumber d e)

def run (o : Opening) (es : List ConnEvent) : Track := es.foldl step o.track

theorem opened (o : Opening) : o.track.Opened := by
  cases o with
  | active now iss key => exact .inl ⟨now, iss, key, rfl⟩
  | passive now iss key seg => exact .inr ⟨now, iss, key, seg, rfl⟩

theorem track_renumber (o : Opening) (d e : UInt32) :
    (o.renumber d e).track = o.track.renumber d e := by
  cases o with
  | active now iss key =>
      have hopen : TcpConnection.activeOpen now (iss + d) key =
          TcpConnection.renumberSent d 0 (TcpConnection.activeOpen now iss key) := by
        unfold TcpConnection.activeOpen
        rw [← TcpConnection.queueAndSend_renumber]
        rfl
      have hsyn : Effect.renumber d 0 { out := (TcpConnection.activeOpen now iss key).2 } =
          Effect.renumber d e { out := (TcpConnection.activeOpen now iss key).2 } := by
        apply Effect.renumber_of_no_ack
        intro m hm
        rw [List.mem_singleton.mp hm]
        exact (by decide : hasFlag tcpSyn tcpAck = false)
      simp only [track, renumber, Track.active, hopen, Track.renumber, ← hsyn]
      rfl
  | passive now iss key seg =>
      have hopen : TcpConnection.passiveOpen now (iss + d) key (seg.renumber d e) =
          TcpConnection.renumberSent d e (TcpConnection.passiveOpen now iss key seg) := by
        unfold TcpConnection.passiveOpen
        rw [← TcpConnection.queueAndSend_renumber]
        simp [TcpConnection.renumber, TcpHeader.renumber, TcpConnection.new, add_right_comm]
      simp only [track, renumber, Track.passive, hopen]
      rfl

end Opening

/-! ## Two runs -/

/-- In the plain order an acknowledgement takes out exactly what it covers in the order
of the circle. -/
theorem Unwrapped.queue_covered {now : Instant} {seg : TcpHeader} {payload : Bytes}
    (h : t.Unwrapped (.segment now seg payload)) (hr : t.Reachable plainNumbers)
    (hlen : sentLen t.hist.out < 2 ^ 31) (htakes : t.conn.TakesAck seg) :
    (t.conn.removeAcked seg.ackNum).retransmitQueue =
        t.conn.retransmitQueue.filter (fun u ↦ ¬ Covers seg.ackNum u.endSeq) ∧
      (t.conn.processAck seg).retransmitQueue =
        t.conn.retransmitQueue.filter (fun u ↦ ¬ Covers seg.ackNum u.endSeq) := by
  obtain ⟨hle, hsent⟩ := h.event.1 htakes
  have hq := hr.queueAt plainNumbers_acksSent h.sent
  have hnxt := hr.sndInv.toNat_sndNxt h.sent
  have hlt := t.conn.sndNxt.toNat_lt
  obtain ⟨a, -, htiles⟩ := hq.tiles
  have hend (u : UnackedSegment) (hu : u ∈ t.conn.retransmitQueue) :
      u.endSeq.toNat = u.seq.toNat + u.seqLen := by
    have hb := htiles.bounds hu
    exact UnackedSegment.toNat_endSeq (by omega)
  have hcover (u : UnackedSegment) (hu : u ∈ t.conn.retransmitQueue) :
      Covers seg.ackNum u.endSeq ↔ u.endSeq ≤ seg.ackNum := by
    have hb := htiles.bounds hu
    have hue := hend u hu
    rw [UInt32.le_iff_toNat_le] at hsent
    refine covers_iff hlen hle ((h.iss_le hr).2 u hu) ?_ ?_ <;> omega
  have hremove : t.conn.retransmitQueue.dropWhile (fun u ↦ u.endSeq ≤ seg.ackNum) =
      t.conn.retransmitQueue.filter (fun u ↦ ¬ Covers seg.ackNum u.endSeq) := by
    rw [htiles.dropWhile_eq_filter (x := seg.ackNum.toNat) fun u hu ↦ by
      rw [decide_eq_true_eq, UInt32.le_iff_toNat_le, hend u hu]]
    apply List.filter_congr
    intro u hu
    simp only [hcover u hu, decide_not]
  refine ⟨hremove, ?_⟩
  by_cases hnew : t.conn.sndUna < seg.ackNum
  · rw [← hremove, TcpConnection.processAck_eq_takeWindow htakes.1, if_pos hnew,
      TcpConnection.takeWindow]
    dsimp only
    split_ifs <;> rfl
  · have hkeep : t.conn.retransmitQueue.filter (fun u ↦ ¬ Covers seg.ackNum u.endSeq) =
        t.conn.retransmitQueue := by
      rw [List.filter_eq_self]
      intro u hu
      have hreach := hq.reaches u hu
      have hue := hend u hu
      rw [UInt32.lt_iff_toNat_lt] at hnew
      rw [decide_eq_true_eq, hcover u hu, UInt32.le_iff_toNat_le]
      omega
    rw [hkeep, TcpConnection.processAck_eq_takeWindow htakes.1, if_neg hnew,
      TcpConnection.takeWindow]
    dsimp only
    split_ifs <;> rfl

/-- As long as no number wraps in either run, a connection goes through the same life
whatever the initial numbers are, and an acknowledgement takes out of the queue exactly
what it covers. -/
theorem run_renumber (o : Opening) (d e : UInt32) (es : List ConnEvent)
    (h : Run.Along Unwrapped step o.track es)
    (h' : Run.Along Unwrapped step (o.renumber d e).track (es.map (ConnEvent.renumber d e))) :
    (o.renumber d e).run (es.map (ConnEvent.renumber d e)) = (o.run es).renumber d e ∧
      ∀ now seg payload, (o.run es).Unwrapped (.segment now seg payload) →
        sentLen (o.run es).hist.out < 2 ^ 31 → (o.run es).conn.TakesAck seg →
        ((o.run es).conn.removeAcked seg.ackNum).retransmitQueue =
            (o.run es).conn.retransmitQueue.filter (fun u ↦ ¬ Covers seg.ackNum u.endSeq) ∧
          ((o.run es).conn.processAck seg).retransmitQueue =
            (o.run es).conn.retransmitQueue.filter (fun u ↦ ¬ Covers seg.ackNum u.endSeq) := by
  obtain ⟨heq, hr, -⟩ := Run.Along.lockstep (f := ConnEvent.renumber d e)
    (R := fun t t' ↦ t' = t.renumber d e ∧ t.Reachable plainNumbers ∧
      t'.Reachable plainNumbers)
    (fun t t' ev hu hu' ⟨heq, hr, hr'⟩ ↦ by
      subst heq
      exact ⟨step_renumber hr hr' hu hu', hr.step hu.event, hr'.step hu'.event⟩)
    h h' ⟨o.track_renumber d e, .start o.opened, .start (o.renumber d e).opened⟩
  exact ⟨heq, fun now seg payload hu hlen htakes ↦ hu.queue_covered hr hlen htakes⟩

/-- Three bytes sent and acknowledged, once from 1000 and 500 and once from 1007 and
509. -/
theorem run_renumber_three :
    ∃ (o : Opening) (es : List ConnEvent), (o.run es).conn.retransmitQueue = [] ∧
      sentBytes (o.run es).hist.out = [1, 2, 3] ∧
      (o.renumber 7 9).run (es.map (ConnEvent.renumber 7 9)) = (o.run es).renumber 7 9 := by
  let synAck : TcpHeader := ⟨80, 49152, 500, 1001, 80, tcpSyn ||| tcpAck, 1000, 0, 0⟩
  let ack : TcpHeader := ⟨80, 49152, 501, 1004, 80, tcpAck, 1000, 0, 0⟩
  refine ⟨.active 0 1000 ⟨1, 49152, 2, 80⟩,
    [.segment 0 synAck [], .send 0 [1, 2, 3], .segment 0 ack []], by decide, by decide,
    (run_renumber _ 7 9 _ ?_ ?_).1⟩
  all_goals
    refine ⟨.segment ?_ ?_ ?_ ?_, ⟨?_, ?_, trivial⟩, .segment ?_ ?_ ?_ ?_, trivial⟩
    all_goals first | decide | (change (_ : ℕ) < _; decide)

/-- The same run from an initial number just below the wrap.  The three bytes are
acknowledged, in the order of the circle, but the acknowledgement looks old and they
stay in the queue. -/
theorem exists_iss_dependent :
    ∃ (o : Opening) (d e : UInt32) (es : List ConnEvent),
      (o.run es).conn.retransmitQueue = [] ∧
      sentLen ((o.renumber d e).run (es.map (ConnEvent.renumber d e))).hist.out < 2 ^ 31 ∧
      ((o.renumber d e).run (es.map (ConnEvent.renumber d e))).conn.retransmitQueue ≠ [] ∧
      (∃ ack ∈ ((o.renumber d e).run (es.map (ConnEvent.renumber d e))).seen,
        hasFlag ack.flags tcpAck ∧
        ∀ u ∈ ((o.renumber d e).run (es.map (ConnEvent.renumber d e))).conn.retransmitQueue,
          Covers ack.ackNum u.endSeq) ∧
      (o.renumber d e).run (es.map (ConnEvent.renumber d e)) ≠ (o.run es).renumber d e := by
  let synAck : TcpHeader := ⟨80, 49152, 500, 1001, 80, tcpSyn ||| tcpAck, 1000, 0, 0⟩
  let ack : TcpHeader := ⟨80, 49152, 501, 1004, 80, tcpAck, 1000, 0, 0⟩
  let o : Opening := .active 0 1000 ⟨1, 49152, 2, 80⟩
  let es : List ConnEvent := [.segment 0 synAck [], .send 0 [1, 2, 3], .segment 0 ack []]
  have hkept : ((o.renumber (4294967294 - 1000) 0).run
      (es.map (ConnEvent.renumber (4294967294 - 1000) 0))).conn.retransmitQueue ≠ [] := by
    decide +kernel
  refine ⟨o, 4294967294 - 1000, 0, es, by decide, by decide +kernel, hkept,
    ⟨ack.renumber (4294967294 - 1000) 0, by decide +kernel, by decide, by decide +kernel⟩, ?_⟩
  intro heq
  rw [heq] at hkept
  exact hkept (by decide +kernel)

end Track

end MiniTcp
