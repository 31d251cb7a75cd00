import Mathlib.Data.Finset.Card
import Mathlib.Logic.Relation
import MiniTcp.Tcp.AcceptQueue
import MiniTcp.Tcp.Drain
import MiniTcp.Tcp.Resets
import MiniTcp.Tcp.Silence

/-!
# The state diagram

Every event moves a connection along the transition table of `docs/state_machine.md`, by
at most two rows, or to CLOSED.  The rows never lead back, so a connection is in at most
six states, each of them for one uninterrupted time.  CLOSED is entered by a reset, by
the acknowledgement of the FIN in LAST_ACK, by the end of TIME_WAIT, by the last retry,
and by `close` in SYN_SENT, and in no other way.
-/

namespace MiniTcp

namespace TcpState

/-- The rows of the table that start at a connection. -/
def transitions : List (TcpState × TcpState) :=
  [(.synSent, .established), (.synRcvd, .established), (.established, .finWait1),
    (.established, .closeWait), (.finWait1, .finWait2), (.finWait1, .closing),
    (.finWait1, .timeWait), (.finWait2, .timeWait), (.closing, .timeWait),
    (.closeWait, .lastAck), (.lastAck, .closed), (.timeWait, .closed)]

/-- A row of the table, or the end of a connection. -/
def Edge (s s' : TcpState) : Prop := (s, s') ∈ transitions ∨ s ≠ .closed ∧ s' = .closed

def Leads : TcpState → TcpState → Prop := Relation.ReflTransGen Edge

/-- At most one row. -/
def Row : TcpState → TcpState → Prop := Relation.ReflGen Edge

/-- At most two rows: the event that ends a handshake may carry a FIN, and the FIN of the
peer may let a deferred one go. -/
def TwoRows : TcpState → TcpState → Prop := Relation.Comp Row Row

def rank : TcpState → ℕ
  | .listen | .synSent | .synRcvd => 0
  | .established => 1
  | .finWait1 | .closeWait => 2
  | .finWait2 | .closing | .lastAck => 3
  | .timeWait => 4
  | .closed => 5

theorem rank_lt_six (s : TcpState) : s.rank < 6 := by
  cases s <;> decide

variable {s s' : TcpState}

theorem Edge.rank_lt (h : s.Edge s') : s.rank < s'.rank := by
  rcases h with hrow | ⟨hne, rfl⟩
  · have hrows : ∀ p ∈ transitions, p.1.rank < p.2.rank := by decide
    exact hrows (s, s') hrow
  · cases s <;> first | decide | exact absurd rfl hne

theorem Leads.rank_lt_or_eq (h : s.Leads s') : s.rank < s'.rank ∨ s = s' := by
  induction h with
  | refl => exact .inr rfl
  | tail _ hedge ih =>
      rcases ih with hlt | rfl
      · exact .inl (hlt.trans hedge.rank_lt)
      · exact .inl hedge.rank_lt

theorem Leads.eq_of_rank (h : s.Leads s') (hrank : s.rank = s'.rank) : s = s' :=
  h.rank_lt_or_eq.resolve_left (Nat.not_lt.mpr (Nat.le_of_eq hrank.symm))

theorem Leads.antisymm (h : s.Leads s') (h' : s'.Leads s) : s = s' := by
  rcases h.rank_lt_or_eq with hlt | heq
  · rcases h'.rank_lt_or_eq with hlt' | heq'
    · exact absurd hlt (Nat.lt_asymm hlt')
    · exact heq'.symm
  · exact heq

theorem row_of_mem (h : (s, s') ∈ transitions) : s.Row s' := .single (.inl h)

theorem row_closed (s : TcpState) : s.Row .closed := by
  by_cases hs : s = .closed
  · rw [hs]
    exact .refl
  · exact .single (.inr ⟨hs, rfl⟩)

theorem Row.twoRows (h : s.Row s') : s.TwoRows s' := ⟨s', h, .refl⟩

theorem twoRows_refl (s : TcpState) : s.TwoRows s := Row.twoRows .refl

theorem twoRows_of_mem (h : (s, s') ∈ transitions) : s.TwoRows s' := (row_of_mem h).twoRows

theorem TwoRows.leads (h : s.TwoRows s') : s.Leads s' := by
  obtain ⟨m, hfirst, hsecond⟩ := h
  exact hfirst.to_reflTransGen.trans hsecond.to_reflTransGen

theorem AfterReceive.row {fin : Bool} (h : s.AfterReceive fin s') : s.Row s' := by
  cases fin with
  | false =>
      rcases h with rfl | ⟨rfl, rfl⟩
      · exact .refl
      · exact row_of_mem (by decide)
  | true =>
      rcases h with ⟨rfl, rfl⟩ | ⟨rfl, rfl | rfl⟩ | ⟨rfl, rfl⟩ <;> exact row_of_mem (by decide)

end TcpState

/-! ## The end of a connection -/

namespace TcpConnection

variable {c : TcpConnection} {now : Instant} {e : ConnEvent}

/-- What takes a connection to CLOSED. -/
def Ends (c : TcpConnection) (e : ConnEvent) : Prop :=
  c.EndedBy e ∨ c.state = .synSent ∧ ∃ now, e = .close now

theorem processSegment_of_ended {seg : TcpHeader} {payload : Bytes} (hlisten : c.state ≠ .listen)
    (h : c.EndedBy (.segment now seg payload)) :
    (c.processSegment now seg payload).conn.state = .closed := by
  by_cases hrst : hasFlag seg.flags tcpRst
  · rw [processSegment_rst hrst hlisten]
  · obtain ⟨hst, hack, heq⟩ := h.resolve_left hrst
    unfold processSegment
    rw [if_neg fun hr ↦ hrst hr.1, hst]
    dsimp only
    unfold lastAckSegment
    dsimp only
    rw [if_pos (by simp [hack, heq])]

theorem ended_of_segment {seg : TcpHeader} {payload : Bytes} (hopen : c.state ≠ .closed)
    (h : (c.processSegment now seg payload).conn.state = .closed) :
    c.EndedBy (.segment now seg payload) := by
  by_contra hended
  cases hst : c.state.synchronized with
  | true =>
      have hsync := processSegment_synchronized hst hended
      rw [h] at hsync
      cases hsync
  | false =>
      -- the handshake ends in ESTABLISHED or CLOSE_WAIT
      unfold processSegment at h
      rw [if_neg fun hr ↦ hended (.inl hr.1)] at h
      cases hs : c.state with
      | synSent =>
          rw [hs] at h
          simp only [synSentSegment] at h
          split_ifs at h
          exact hopen h
      | synRcvd =>
          rw [hs] at h
          simp only [synRcvdSegment] at h
          split_ifs at h
          · rw [receive_state] at h
            cases h
          · exact hopen h
      | listen =>
          rw [hs] at h
          exact hopen h
      | closed => exact hopen hs
      | _ =>
          rw [hs] at hst
          cases hst

theorem tick_ended_iff (hopen : c.state ≠ .closed) :
    (c.tick now).1.state = .closed ↔ c.EndedBy (.tick now) := by
  obtain ⟨deadline, rto, hprobe⟩ := tickProbe_eq now c
  obtain ⟨queue, hfront⟩ := retransmitFront_eq now (c.tickProbe now).1
  simp only [EndedBy]
  unfold tick
  by_cases htw : c.state = .timeWait
  · rw [if_pos htw, if_pos htw]
    dsimp only
    split_ifs with hlate
    · exact iff_of_true rfl hlate
    · exact iff_of_false hopen hlate
  · have hgive : (c.tickProbe now).1.givesUp now = c.givesUp now := by
      rw [hprobe]
      rfl
    rw [if_neg htw, if_neg htw]
    dsimp only
    rw [hgive]
    split_ifs with hup
    · exact iff_of_true rfl hup
    · refine iff_of_false (fun hclosed ↦ hopen ?_) hup
      have hbefore := closed_of_flushSend hclosed
      rw [hfront, hprobe] at hbefore
      exact hbefore

theorem ends_iff (hopen : c.state ≠ .closed) (hlisten : c.state ≠ .listen) :
    (c.step e).1.state = .closed ↔ c.Ends e := by
  cases e with
  | segment now seg payload =>
      refine ⟨fun h ↦ .inl (ended_of_segment hopen h), ?_⟩
      rintro (hended | ⟨-, now', hcall⟩)
      · exact processSegment_of_ended hlisten hended
      · cases hcall
  | tick now =>
      refine (tick_ended_iff hopen).trans ⟨.inl, ?_⟩
      rintro (hended | ⟨-, now', hcall⟩)
      · exact hended
      · cases hcall
  | close now =>
      constructor
      · intro h
        rcases closed_of_call rfl h with hclosed | ⟨hst | hst, -⟩
        · exact absurd hclosed hopen
        · exact .inr ⟨hst, now, rfl⟩
        · exact absurd hst hlisten
      · rintro (hended | ⟨hst, -⟩)
        · cases hended
        · change (c.close now).1.state = .closed
          unfold close
          rw [hst]
  | send | recv | setRecvCap | setSendCap =>
      refine iff_of_false (fun h ↦ ?_) ?_
      · rcases closed_of_call rfl h with hclosed | ⟨-, now', hcall⟩
        · exact hopen hclosed
        · cases hcall
      · rintro (hended | ⟨-, now', hcall⟩)
        · cases hended
        · cases hcall

end TcpConnection

/-! ## The rows of one event -/

namespace TcpConnection

variable {c : TcpConnection} {seg : TcpHeader}

theorem flushSend_row (now : Instant) (c : TcpConnection) :
    c.state.Row (c.flushSend now).1.state := by
  cases hst : c.state.sends with
  | false =>
      rw [flushSend_of_not_sends now hst]
      exact .refl
  | true =>
      have hs := sends_iff.mp hst
      obtain ⟨c₂, data, hloop, ⟨-, -, hflush⟩ | ⟨-, hflush⟩⟩ := flushSend_cases now hs
      · rw [hflush]
        dsimp only
        rcases hs with hs | hs <;>
          · rw [hs]
            exact TcpState.row_of_mem (by decide)
      · obtain ⟨queue, deadline, heq⟩ := hloop.eq
        rw [hflush, heq]
        exact .refl

/-- The end of the passive handshake may take in the peer's FIN at once. -/
theorem synRcvdSegment_rows (seg : TcpHeader) (payload : Bytes) (hs : c.state = .synRcvd) :
    TcpState.TwoRows .synRcvd (c.synRcvdSegment seg payload).conn.state := by
  have hestablished : TcpState.TwoRows .synRcvd .established := TcpState.twoRows_of_mem (by decide)
  unfold synRcvdSegment
  dsimp only
  split_ifs
  · change TcpState.TwoRows .synRcvd .closeWait
    exact ⟨.established, TcpState.row_of_mem (by decide), TcpState.row_of_mem (by decide)⟩
  · rw [receive_state]
    exact hestablished
  · exact hestablished
  · rw [hs]
    exact TcpState.twoRows_refl _

theorem processSegment_rows (now : Instant) (c : TcpConnection) (seg : TcpHeader)
    (payload : Bytes) : c.state.TwoRows (c.processSegment now seg payload).conn.state := by
  have hack := processAck_state c seg
  have hrec := (receive_state (c.processAck seg) seg payload).trans hack
  unfold processSegment
  split_ifs with hrst
  · exact (TcpState.row_closed _).twoRows
  cases hs : c.state with
  | synSent =>
      unfold synSentSegment
      dsimp only
      split_ifs
      · change TcpState.TwoRows .synSent .established
        exact TcpState.twoRows_of_mem (by decide)
      · rw [hs]
        exact TcpState.twoRows_refl _
  | synRcvd => exact synRcvdSegment_rows seg payload hs
  | established =>
      -- the FIN of the peer is one row, what the flush then sends is another
      refine ⟨_, ?_, flushSend_row now _⟩
      split_ifs
      · change TcpState.Row .established .closeWait
        exact TcpState.row_of_mem (by decide)
      · rw [hrec, hs]
        exact .refl
  | finWait1 =>
      obtain ⟨s, deadline, hconn, hafter⟩ := finWait1Segment_conn seg payload now hs
      rw [hack, hs] at hafter
      rw [hconn]
      exact hafter.row.twoRows
  | finWait2 =>
      unfold finWait2Segment
      dsimp only
      split_ifs
      · change TcpState.TwoRows .finWait2 .timeWait
        exact TcpState.twoRows_of_mem (by decide)
      · rw [hrec, hs]
        exact TcpState.twoRows_refl _
  | closing =>
      unfold closingSegment
      dsimp only
      split_ifs
      · change TcpState.TwoRows .closing .timeWait
        exact TcpState.twoRows_of_mem (by decide)
      · rw [hack, hs]
        exact TcpState.twoRows_refl _
  | closeWait =>
      have hrow := flushSend_row now (c.processAck seg)
      rw [hack, hs] at hrow
      exact hrow.twoRows
  | lastAck =>
      unfold lastAckSegment
      dsimp only
      split_ifs
      · exact (TcpState.row_closed _).twoRows
      · rw [hack, hs]
        exact TcpState.twoRows_refl _
  | timeWait =>
      have hstate : (c.timeWaitSegment now seg).conn.state = c.state := by
        unfold timeWaitSegment
        split_ifs <;> rfl
      rw [hstate, hs]
      exact TcpState.twoRows_refl _
  | closed | listen =>
      rw [hs]
      exact TcpState.twoRows_refl _

theorem step_rows (c : TcpConnection) (e : ConnEvent) : c.state.TwoRows (c.step e).1.state := by
  cases e with
  | segment now seg payload => exact processSegment_rows now c seg payload
  | tick now =>
      change c.state.TwoRows (c.tick now).1.state
      rcases tick_cases now c with ⟨hclosed | ⟨-, hsame⟩, -⟩ | ⟨c₂, hstate, -, -, htick⟩
      · rw [hclosed]
        exact (TcpState.row_closed _).twoRows
      · rw [hsame]
        exact TcpState.twoRows_refl _
      · rw [htick, ← hstate]
        exact (flushSend_row now c₂).twoRows
  | send now data =>
      exact (flushSend_row now
        { c with sendPending := c.sendPending ++ c.acceptedPrefix data }).twoRows
  | close now =>
      change c.state.TwoRows (c.close now).1.state
      unfold close
      split
      case h_1 | h_2 => exact (flushSend_row now { c with pendingClose := true }).twoRows
      case h_3 | h_4 => exact (TcpState.row_closed _).twoRows
      case h_5 => exact TcpState.twoRows_refl _
  | recv | setRecvCap | setSendCap => exact TcpState.twoRows_refl _

end TcpConnection

/-! ## The states of a life -/

namespace Track

variable {t : Track}

/-- The state of a connection before, between and after the events. -/
def states (t : Track) : List ConnEvent → List TcpState
  | [] => [t.conn.state]
  | e :: es => t.conn.state :: (t.step e).states es

theorem leads_step (t : Track) (e : ConnEvent) : t.conn.state.Leads (t.step e).conn.state :=
  (t.conn.step_rows e).leads

theorem leads_of_mem_states {s : TcpState} {es : List ConnEvent} (h : s ∈ t.states es) :
    t.conn.state.Leads s := by
  induction es generalizing t with
  | nil =>
      rw [List.mem_singleton.mp h]
      exact .refl
  | cons e es ih =>
      rcases List.mem_cons.mp h with rfl | h
      · exact .refl
      · exact (t.leads_step e).trans (ih h)

theorem pairwise_states (t : Track) (es : List ConnEvent) :
    (t.states es).Pairwise TcpState.Leads := by
  induction es generalizing t with
  | nil => exact List.pairwise_singleton _ _
  | cons e es ih =>
      refine List.pairwise_cons.mpr ⟨fun s hs ↦ ?_, ih (t.step e)⟩
      exact (t.leads_step e).trans (leads_of_mem_states hs)

theorem card_states_le (t : Track) (es : List ConnEvent) : (t.states es).toFinset.card ≤ 6 := by
  have hpair : (t.states es).Pairwise fun s s' ↦ s.Leads s' ∨ s'.Leads s :=
    (t.pairwise_states es).imp Or.inl
  have hinj : Set.InjOn TcpState.rank (t.states es).toFinset := by
    intro s hs s' hs' hrank
    by_contra hne
    have hsymm : Std.Symm fun s s' : TcpState ↦ s.Leads s' ∨ s'.Leads s := ⟨fun _ _ ↦ Or.symm⟩
    rcases hpair.forall (List.mem_toFinset.mp hs) (List.mem_toFinset.mp hs') hne with h | h
    · exact hne (h.eq_of_rank hrank)
    · exact hne (h.eq_of_rank hrank.symm).symm
  calc (t.states es).toFinset.card
      ≤ (Finset.range 6).card := Finset.card_le_card_of_injOn TcpState.rank
        (fun s _ ↦ Finset.mem_coe.mpr (Finset.mem_range.mpr s.rank_lt_six)) hinj
    _ = 6 := Finset.card_range 6

theorem Opened.reachable_foldl (ht : t.Opened) (es : List ConnEvent) :
    (es.foldl step t).Reachable {} := by
  induction es using List.reverseRecOn with
  | nil => exact .start ht
  | append_singleton es e ih =>
      rw [List.foldl_append]
      exact .tail e ih (Guard.admits_empty _ _)

theorem isChain_states (t : Track) (es : List ConnEvent) :
    (t.states es).IsChain TcpState.TwoRows := by
  induction es generalizing t with
  | nil => exact List.IsChain.singleton _
  | cons e es ih =>
      have hrest := ih (t.step e)
      cases es with
      | nil => exact List.isChain_cons_cons.mpr ⟨t.conn.step_rows e, hrest⟩
      | cons e' es => exact List.isChain_cons_cons.mpr ⟨t.conn.step_rows e, hrest⟩

/-- From the SYN on, whatever arrives and whatever is called: the states of a connection
follow the table, by at most two rows at a time, none of them is entered twice, there are
at most six of them, and the connection ends exactly by one of the events that may end
it. -/
theorem life_follows_diagram (ht : t.Opened) (es : List ConnEvent) :
    (t.states es).IsChain TcpState.TwoRows ∧ (t.states es).Pairwise TcpState.Leads ∧
      (∀ s s', [s, s', s].Sublist (t.states es) → s' = s) ∧
      (t.states es).toFinset.card ≤ 6 ∧
      ∀ e, (es.foldl step t).conn.state ≠ .closed →
        (((es.foldl step t).step e).conn.state = .closed ↔ (es.foldl step t).conn.Ends e) := by
  have hpair := t.pairwise_states es
  refine ⟨t.isChain_states es, hpair, fun s s' hsub ↦ ?_, t.card_states_le es, fun e hopen ↦ ?_⟩
  · obtain ⟨hfirst, hrest⟩ := List.pairwise_cons.mp (hpair.sublist hsub)
    have hback := (List.pairwise_cons.mp hrest).1 s (List.mem_singleton_self s)
    exact hback.antisymm (hfirst s' List.mem_cons_self)
  · exact TcpConnection.ends_iff hopen (Opened.reachable_foldl ht es).handshake.1

/-- The active close: SYN_SENT, ESTABLISHED, FIN_WAIT_1, TIME_WAIT, and the timer. -/
theorem life_follows_diagram_close :
    ∃ (t : Track) (es : List ConnEvent), t.Opened ∧
      t.states es = [.synSent, .established, .finWait1, .timeWait] ∧
      (((es.foldl step t).step (.tick 4000000000)).conn.state = .closed ↔
        (es.foldl step t).conn.Ends (.tick 4000000000)) := by
  let synAck : TcpHeader := ⟨80, 49152, 500, 1001, 80, tcpSyn ||| tcpAck, 1000, 0, 0⟩
  let finAck : TcpHeader := ⟨80, 49152, 501, 1002, 80, tcpFin ||| tcpAck, 1000, 0, 0⟩
  let t := active 0 1000 ⟨1, 49152, 2, 80⟩
  let es : List ConnEvent := [.segment 0 synAck [], .close 0, .segment 0 finAck []]
  have ht : t.Opened := .inl ⟨_, _, _, rfl⟩
  refine ⟨t, es, ht, by decide, (life_follows_diagram ht es).2.2.2.2 _ (by decide)⟩

end Track

end MiniTcp
