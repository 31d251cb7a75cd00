import MiniTcp.Tcp.Host
import MiniTcp.Tcp.States

/-!
# The accept queues

A queue holds copies of keys, and nothing links a copy to the connection it stands
for.  As long as no connection is ended or replaced while its key is waiting, every
waiting key names a connection past its handshake, waits once, and is returned by
`accept` once.  A RST to a waiting connection is enough to break all three.
-/

namespace MiniTcp

namespace TcpConnection

variable {c : TcpConnection} {now : Instant}

/-- What takes a connection past its handshake to CLOSED: a RST, the acknowledgement of
our FIN in LAST_ACK, the end of TIME_WAIT, and the last retry. -/
def EndedBy (c : TcpConnection) : ConnEvent → Prop
  | .segment _ seg _ => hasFlag seg.flags tcpRst ∨
      c.state = .lastAck ∧ hasFlag seg.flags tcpAck ∧ seg.ackNum = c.sndNxt
  | .tick now => if c.state = .timeWait then c.timeWaitDeadline ≤ now else c.givesUp now
  | _ => False

theorem flushSend_synchronized (now : Instant) (h : c.state.synchronized) :
    (c.flushSend now).1.state.synchronized := by
  rcases flushSend_state now c with hs | ⟨-, hs | hs⟩
  · rw [hs]
    exact h
  all_goals
    rw [hs]
    rfl

theorem processSegment_synchronized {seg : TcpHeader} {payload : Bytes}
    (hst : c.state.synchronized) (h : ¬ c.EndedBy (.segment now seg payload)) :
    (c.processSegment now seg payload).conn.state.synchronized := by
  obtain ⟨hrst, hlast⟩ := not_or.mp h
  have hack := processAck_state c seg
  have hrec := (receive_state (c.processAck seg) seg payload).trans hack
  unfold processSegment
  rw [if_neg fun hr ↦ hrst hr.1]
  cases hs : c.state with
  | established =>
      rw [hs] at hrec
      refine flushSend_synchronized now ?_
      split_ifs
      · rfl
      · rw [hrec]
        rfl
  | finWait1 =>
      obtain ⟨s, deadline, hconn, hafter⟩ := finWait1Segment_conn seg payload now hs
      rw [hack, hs] at hafter
      dsimp only
      rw [hconn]
      generalize ((c.processAck seg).receiveDataAndMaybeFin seg payload).fin = fin at hafter
      cases fin with
      | false =>
          rcases hafter with rfl | ⟨-, rfl⟩ <;> rfl
      | true =>
          rcases hafter with ⟨hno, -⟩ | ⟨-, rfl | rfl⟩ | ⟨hno, -⟩
          · cases hno
          · rfl
          · rfl
          · cases hno
  | finWait2 =>
      rw [hs] at hrec
      unfold finWait2Segment
      dsimp only
      split_ifs
      · rfl
      · rw [hrec]
        rfl
  | closing =>
      unfold closingSegment
      dsimp only
      split_ifs
      · rfl
      · rw [hack, hs]
        rfl
  | closeWait => exact flushSend_synchronized now (by rw [hack, hs]; rfl)
  | lastAck =>
      unfold lastAckSegment
      dsimp only
      split_ifs with hfin
      · rw [Bool.and_eq_true, beq_iff_eq, processAck_sndNxt] at hfin
        exact absurd ⟨hs, hfin⟩ hlast
      · rw [hack, hs]
        rfl
  | timeWait =>
      unfold timeWaitSegment
      split_ifs <;> simp only [hs] <;> rfl
  | closed | listen | synSent | synRcvd => simp [hs, TcpState.synchronized] at hst

theorem tick_synchronized (hst : c.state.synchronized) (h : ¬ c.EndedBy (.tick now)) :
    (c.tick now).1.state.synchronized := by
  obtain ⟨deadline, rto, hprobe⟩ := tickProbe_eq now c
  obtain ⟨queue, hfront⟩ := retransmitFront_eq now (c.tickProbe now).1
  simp only [EndedBy] at h
  unfold tick
  by_cases htw : c.state = .timeWait
  · rw [if_pos htw] at h ⊢
    dsimp only
    rw [if_neg h]
    exact hst
  · have hgive : (c.tickProbe now).1.givesUp now = c.givesUp now := by
      rw [hprobe]
      rfl
    rw [if_neg htw] at h ⊢
    dsimp only
    rw [hgive, if_neg h]
    refine flushSend_synchronized now ?_
    rw [hfront, hprobe]
    exact hst

/-- Past the handshake a connection stays so until it is ended. -/
theorem step_synchronized {e : ConnEvent} (hst : c.state.synchronized) (h : ¬ c.EndedBy e) :
    (c.step e).1.state.synchronized := by
  cases e with
  | segment now seg payload => exact processSegment_synchronized hst h
  | tick now => exact tick_synchronized hst h
  | send now data => exact flushSend_synchronized now hst
  | close now =>
      simp only [step, close]
      split
      case h_1 | h_2 => exact flushSend_synchronized now hst
      case h_3 hs | h_4 hs => simp [hs, TcpState.synchronized] at hst
      case h_5 => exact hst
  | recv len | setRecvCap cap | setSendCap cap => exact hst

theorem step_not_synRcvd {e : ConnEvent} (h : c.state ≠ .synRcvd) :
    (c.step e).1.state ≠ .synRcvd :=
  (step_acts (Guard.admits_empty c e)).invariant (P := fun c (_ : Effect) ↦ c.state ≠ .synRcvd)
    (w := 0) (fun _ _ _ _ hc hact ↦ hact.not_synRcvd hc) h

theorem synRcvd_of_after {o : Option ConnEvent} (h : (c.after o).state = .synRcvd) :
    c.state = .synRcvd := by
  cases o with
  | none => exact h
  | some e =>
      by_contra hne
      exact step_not_synRcvd hne h

/-- A key joins a queue only at the end of its handshake. -/
theorem processSegment_enqueue {seg : TcpHeader} {payload : Bytes}
    (h : (c.processSegment now seg payload).enqueue = true) :
    c.state = .synRcvd ∧ (c.processSegment now seg payload).conn.state.synchronized := by
  unfold processSegment at h ⊢
  split_ifs at h ⊢ with hrst
  cases hs : c.state with
  | synRcvd =>
      rw [hs] at h
      refine ⟨rfl, ?_⟩
      unfold synRcvdSegment at h ⊢
      dsimp only at h ⊢
      split_ifs at h ⊢
      · rfl
      · exact (receive_state _ _ _).symm ▸ rfl
      · rfl
  | synSent =>
      rw [hs] at h
      simp only [synSentSegment] at h
      split_ifs at h
  | closing =>
      rw [hs] at h
      simp only [closingSegment] at h
      split_ifs at h
  | lastAck =>
      rw [hs] at h
      simp only [lastAckSegment] at h
      split_ifs at h
  | timeWait =>
      rw [hs] at h
      simp only [timeWaitSegment] at h
      split_ifs at h
  | _ =>
      rw [hs] at h
      cases h

end TcpConnection

/-! ## The queues of a table -/

namespace TcpTable

variable {t : TcpTable} {e : TableEvent} {k : ConnectionKey}

/-- All accept queues together. -/
def waiting (t : TcpTable) : List ConnectionKey := t.acceptQueues.values.flatten

theorem waiting_pushAccept (t : TcpTable) (addr : UInt32 × UInt16) (key : ConnectionKey) :
    (t.pushAccept addr key).waiting.Perm (key :: t.waiting) := by
  simp only [waiting, pushAccept, AssocMap.values_insert, List.flatten_cons]
  cases hq : t.acceptQueues.lookup addr with
  | none =>
      rw [AssocMap.erase_of_lookup_eq_none hq]
      exact List.Perm.refl _
  | some q =>
      have hperm := (AssocMap.values_perm_erase hq).flatten
      rw [List.flatten_cons] at hperm
      rw [Option.getD_some, List.append_assoc]
      exact List.perm_middle.trans (hperm.symm.cons key)

theorem waiting_accept {addr : UInt32} {port : UInt16} (h : (t.accept addr port).2 = some k) :
    t.waiting.Perm (k :: (t.accept addr port).1.waiting) := by
  unfold accept at h ⊢
  split at h
  · next key rest hq =>
      obtain rfl := Option.some.inj h
      have hperm := (AssocMap.values_perm_erase hq).flatten
      simp only [waiting, AssocMap.values_insert, List.flatten_cons]
      exact hperm
  · cases h

theorem accept_eq_self {addr : UInt32} {port : UInt16} (h : (t.accept addr port).2 = none) :
    (t.accept addr port).1 = t := by
  unfold accept at h ⊢
  split at h
  · cases h
  · rfl

theorem waiting_withConnection (key : ConnectionKey)
    (f : TcpConnection → TcpConnection × List Emission) :
    (t.withConnection key f).1.waiting = t.waiting := by
  unfold withConnection
  split <;> rfl

end TcpTable

def TableEvent.accepted (t : TcpTable) : TableEvent → Option ConnectionKey
  | .accept addr port => (t.accept addr port).2
  | _ => none

namespace TcpTable

variable {t : TcpTable} {e : TableEvent} {k : ConnectionKey}

/-- One key joins the queues at the end of its handshake, or one is returned, or the
queues stay as they are. -/
theorem waiting_step (t : TcpTable) (e : TableEvent) :
    (∃ k c, t.lookup k = some c ∧ c.state = .synRcvd ∧ (c.after (e.on k)).state.synchronized ∧
        e.opened t k = none ∧ e.accepted t = none ∧ (t.step e).1.waiting.Perm (k :: t.waiting)) ∨
      (∃ k, e.accepted t = some k ∧ t.waiting.Perm (k :: (t.step e).1.waiting)) ∨
      e.accepted t = none ∧ (t.step e).1.waiting = t.waiting := by
  cases e with
  | segment now iss ipHdr payload =>
      simp only [step, handleSegment, TableEvent.on, TableEvent.opened]
      cases hseg : acceptedSegment ipHdr payload with
      | none => exact .inr (.inr ⟨rfl, rfl⟩)
      | some p =>
          obtain ⟨seg, data⟩ := p
          dsimp only
          unfold demux
          dsimp only
          cases hc : t.lookup (segmentKey ipHdr seg) with
          | some c =>
              dsimp only
              unfold processSegment
              dsimp only
              split_ifs with henq
              · obtain ⟨hst, hsync⟩ := TcpConnection.processSegment_enqueue henq
                refine .inl ⟨segmentKey ipHdr seg, c, hc, hst, ?_, ?_, rfl,
                  waiting_pushAccept _ _ _⟩
                · rw [if_pos rfl]
                  exact hsync
                · exact if_neg fun h ↦ by simp [hc] at h
              · exact .inr (.inr ⟨rfl, rfl⟩)
          | none =>
              dsimp only
              split_ifs <;> exact .inr (.inr ⟨rfl, rfl⟩)
  | accept addr port =>
      simp only [step, TableEvent.accepted]
      cases hk : (t.accept addr port).2 with
      | some k => exact .inr (.inl ⟨k, rfl, waiting_accept hk⟩)
      | none => exact .inr (.inr ⟨rfl, by rw [accept_eq_self hk]⟩)
  | listen addr port reuseAddr =>
      refine .inr (.inr ⟨rfl, ?_⟩)
      simp only [step, listen, waiting]
      split_ifs <;> rfl
  | tick | connect => exact .inr (.inr ⟨rfl, rfl⟩)
  | send | recv | close | setRecvCap | setSendCap =>
      exact .inr (.inr ⟨rfl, waiting_withConnection _ _⟩)

theorem mem_waiting_of_accepted (hk : e.accepted t = some k) : k ∈ t.waiting := by
  rcases t.waiting_step e with ⟨-, -, -, -, -, -, hno, -⟩ | ⟨k', hk', hperm⟩ | ⟨hno, -⟩
  · rw [hno] at hk
    cases hk
  · obtain rfl : k' = k := Option.some.inj (hk'.symm.trans hk)
    exact hperm.mem_iff.mpr List.mem_cons_self
  · rw [hno] at hk
    cases hk

theorem mem_waiting_of_step (hk : k ∈ (t.step e).1.waiting) :
    k ∈ t.waiting ∨ ∃ c, t.lookup k = some c ∧ c.state = .synRcvd ∧
      (c.after (e.on k)).state.synchronized ∧ e.opened t k = none := by
  rcases t.waiting_step e with ⟨k', c, hc, hst, hsync, hopened, -, hperm⟩ | ⟨k', -, hperm⟩ |
    ⟨-, hsame⟩
  · rcases List.mem_cons.mp (hperm.mem_iff.mp hk) with rfl | hk
    · exact .inr ⟨c, hc, hst, hsync, hopened⟩
    · exact .inl hk
  · exact .inl (hperm.mem_iff.mpr (List.mem_cons_of_mem k' hk))
  · rw [hsame] at hk
    exact .inl hk

/-- The call ends no connection whose key is waiting and opens none under such a key. -/
def Spares (t : TcpTable) (e : TableEvent) : Prop :=
  ∀ k ∈ t.waiting, e.opened t k = none ∧
    ∀ c ce, t.lookup k = some c → e.on k = some ce → ¬ c.EndedBy ce

theorem Spares.lookup {c : TcpConnection} (h : t.Spares e) (hk : k ∈ t.waiting)
    (hc : t.lookup k = some c) (hst : c.state.synchronized) :
    ∃ c', (t.step e).1.lookup k = some c' ∧ c'.state.synchronized := by
  obtain ⟨hopened, hended⟩ := h k hk
  have hafter : (c.after (e.on k)).state.synchronized := by
    cases hon : e.on k with
    | none => exact hst
    | some ce => exact TcpConnection.step_synchronized hst (hended c ce hc hon)
  refine ⟨_, lookup_step_of_open hc hopened fun hclosed ↦ ?_, hafter⟩
  rw [hclosed] at hafter
  cases hafter

end TcpTable

/-! ## Every run -/

/-- A table, and the keys `accept` has returned since their connection was opened. -/
structure Acceptor where
  table : TcpTable
  returned : ConnectionKey → Bool

namespace Acceptor

variable {s : Acceptor} {e : TableEvent}

def new : Acceptor where
  table := TcpTable.new
  returned _ := false

def step (s : Acceptor) (e : TableEvent) : Acceptor where
  table := (s.table.step e).1
  returned k := (e.opened s.table k).isNone && (s.returned k || e.accepted s.table == some k)

def Reachable (ok : TcpTable → TableEvent → Prop) : Acceptor → Prop :=
  Run.Reaches (· = new) (fun s e ↦ ok s.table e) step

structure Valid (s : Acceptor) : Prop where
  live : ∀ k ∈ s.table.waiting, ∃ c, s.table.lookup k = some c ∧ c.state.synchronized
  nodup : s.table.waiting.Nodup
  fresh : ∀ k ∈ s.table.waiting, s.returned k = false
  /-- nothing is returned before its handshake is over -/
  opening : ∀ k c, s.table.lookup k = some c → c.state = .synRcvd → s.returned k = false

theorem returned_step {k : ConnectionKey} (h : s.returned k = false)
    (hk : e.accepted s.table ≠ some k) : (s.step e).returned k = false := by
  simp [step, h, hk]

theorem Valid.step (h : s.Valid) (hspares : s.table.Spares e) : (s.step e).Valid := by
  have hkeep {k : ConnectionKey} (hk : k ∈ s.table.waiting) :
      ∃ c, (s.step e).table.lookup k = some c ∧ c.state.synchronized := by
    obtain ⟨c, hc, hst⟩ := h.live k hk
    exact hspares.lookup hk hc hst
  have hopening (k : ConnectionKey) (c : TcpConnection) (hc : (s.step e).table.lookup k = some c)
      (hst : c.state = .synRcvd) : (s.step e).returned k = false := by
    rcases TcpTable.lookup_step hc with ⟨tr, hopen, -⟩ | ⟨-, c₀, hc₀, rfl⟩
    · simp [Acceptor.step, hopen]
    · have hst₀ := TcpConnection.synRcvd_of_after hst
      refine returned_step (h.opening k c₀ hc₀ hst₀) fun hk ↦ ?_
      obtain ⟨c₁, hc₁, hsync⟩ := h.live k (TcpTable.mem_waiting_of_accepted hk)
      obtain rfl : c₀ = c₁ := Option.some.inj (hc₀.symm.trans hc₁)
      rw [hst₀] at hsync
      cases hsync
  rcases s.table.waiting_step e with ⟨k, c, hc, hst, hsync, hopened, hno, hperm⟩ |
    ⟨k, hk, hperm⟩ | ⟨hno, hsame⟩
  · -- the key was not waiting before, its handshake was not over
    have hnew : k ∉ s.table.waiting := by
      intro hk
      obtain ⟨c', hc', hsync'⟩ := h.live k hk
      obtain rfl : c = c' := Option.some.inj (hc.symm.trans hc')
      rw [hst] at hsync'
      cases hsync'
    refine ⟨fun k' hk' ↦ ?_, hperm.nodup_iff.mpr (List.nodup_cons.mpr ⟨hnew, h.nodup⟩),
      fun k' hk' ↦ ?_, hopening⟩
    · rcases List.mem_cons.mp (hperm.mem_iff.mp hk') with rfl | hk'
      · refine ⟨_, TcpTable.lookup_step_of_open hc hopened fun hclosed ↦ ?_, hsync⟩
        rw [hclosed] at hsync
        cases hsync
      · exact hkeep hk'
    · refine returned_step ?_ (by rw [hno]; exact (Option.some_ne_none k').symm)
      rcases List.mem_cons.mp (hperm.mem_iff.mp hk') with rfl | hk'
      · exact h.opening k' c hc hst
      · exact h.fresh k' hk'
  · have hcons := hperm.nodup_iff.mp h.nodup
    have hold {k' : ConnectionKey} (hk' : k' ∈ (s.step e).table.waiting) :
        k' ∈ s.table.waiting := hperm.mem_iff.mpr (List.mem_cons_of_mem k hk')
    refine ⟨fun k' hk' ↦ hkeep (hold hk'), (List.nodup_cons.mp hcons).2, fun k' hk' ↦ ?_, hopening⟩
    refine returned_step (h.fresh k' (hold hk')) fun hk'' ↦ ?_
    obtain rfl : k = k' := Option.some.inj (hk.symm.trans hk'')
    exact (List.nodup_cons.mp hcons).1 hk'
  · have hsame' : (s.step e).table.waiting = s.table.waiting := hsame
    refine ⟨fun k' hk' ↦ hkeep (hsame' ▸ hk'), by rw [hsame']; exact h.nodup, fun k' hk' ↦ ?_,
      hopening⟩
    refine returned_step (h.fresh k' (hsame' ▸ hk')) ?_
    rw [hno]
    exact (Option.some_ne_none k').symm

theorem Reachable.valid (h : s.Reachable TcpTable.Spares) : s.Valid := by
  refine Run.Reaches.invariant ?_ ?_ h
  · rintro s rfl
    exact ⟨fun k hk ↦ absurd hk List.not_mem_nil, List.nodup_nil, fun _ _ ↦ rfl, fun _ _ _ _ ↦ rfl⟩
  · intro s e _ hspares hvalid
    exact hvalid.step hspares

/-- As long as no connection is ended or replaced while its key is waiting, every waiting
key names a connection past its handshake, waits once, and was not returned before. -/
theorem accept_queues_valid (h : s.Reachable TcpTable.Spares) :
    (∀ addr q, s.table.acceptQueues.lookup addr = some q → ∀ k ∈ q,
        ∃ c, s.table.lookup k = some c ∧ c.state.synchronized ∧ c.state ≠ .closed) ∧
      s.table.acceptQueues.values.flatten.Nodup ∧
      ∀ addr port k, (s.table.accept addr port).2 = some k → s.returned k = false ∧
        ∃ c, (s.table.accept addr port).1.lookup k = some c ∧ c.state.synchronized ∧
          c.state ≠ .closed := by
  have hvalid := h.valid
  have hlive {k : ConnectionKey} (hk : k ∈ s.table.waiting) :
      ∃ c, s.table.lookup k = some c ∧ c.state.synchronized ∧ c.state ≠ .closed := by
    obtain ⟨c, hc, hst⟩ := hvalid.live k hk
    refine ⟨c, hc, hst, fun hclosed ↦ ?_⟩
    rw [hclosed] at hst
    cases hst
  refine ⟨fun addr q hq k hk ↦ ?_, hvalid.nodup, fun addr port k hk ↦ ?_⟩
  · exact hlive (List.mem_flatten.mpr ⟨q, AssocMap.mem_values.mpr ⟨addr, hq⟩, hk⟩)
  · have hmem := TcpTable.mem_waiting_of_accepted (e := .accept addr port) hk
    refine ⟨hvalid.fresh k hmem, ?_⟩
    have hsame : (s.table.accept addr port).1.lookup k = s.table.lookup k := by
      unfold TcpTable.accept
      split <;> rfl
    rw [hsame]
    exact hlive hmem

theorem accept_queues_valid_waiting :
    ∃ (s : Acceptor) (k : ConnectionKey), s.Reachable TcpTable.Spares ∧
      (s.table.accept 2 80).2 = some k ∧ s.returned k = false ∧
      ∃ c, (s.table.accept 2 80).1.lookup k = some c ∧ c.state.synchronized ∧
        c.state ≠ .closed := by
  let k : ConnectionKey := ⟨2, 80, 1, 7⟩
  let syn : Packet := ⟨1, 2, ⟨7, 80, 500, 0, 80, tcpSyn, 1000, 0, 0⟩, []⟩
  let ack : Packet := ⟨1, 2, ⟨7, 80, 501, 1001, 80, tcpAck, 1000, 0, 0⟩, []⟩
  let data : Packet := ⟨1, 2, ⟨7, 80, 501, 1001, 80, tcpAck, 1000, 0, 0⟩, [1, 2]⟩
  let s₁ := (new.step (.listen 2 80 false)).step (.segment 0 1000 syn.ipHeader syn.segment)
  let s₂ := s₁.step (.segment 0 0 ack.ipHeader ack.segment)
  let s₃ := s₂.step (.segment 0 0 data.ipHeader data.segment)
  have hempty {t : TcpTable} {e : TableEvent} (h : t.waiting = []) : t.Spares e := by
    intro k hk
    rw [h] at hk
    cases hk
  have h₁ : s₁.Reachable TcpTable.Spares :=
    .tail _ (.tail _ (.start rfl) (hempty (by decide +kernel))) (hempty (by decide +kernel))
  have h₂ : s₂.Reachable TcpTable.Spares := .tail _ h₁ (hempty (by decide +kernel))
  have hwait : s₂.table.waiting = [k] := by decide +kernel
  have hst : (s₂.table.lookup k).map (fun c ↦ c.state) = some .established := by decide +kernel
  have hseg : TcpTable.acceptedSegment data.ipHeader data.segment =
      some ({ data.hdr with checksum := data.checksum }, [1, 2]) := by decide +kernel
  have h₃ : s₃.Reachable TcpTable.Spares := by
    refine .tail _ h₂ fun k' hk' ↦ ?_
    rw [hwait, List.mem_singleton] at hk'
    subst hk'
    refine ⟨by decide +kernel, fun c ce hc hon ↦ ?_⟩
    simp only [TableEvent.on] at hon
    rw [hseg] at hon
    obtain ⟨-, hce⟩ := Option.ite_none_right_eq_some.mp hon
    obtain rfl := Option.some.inj hce
    rw [hc] at hst
    rintro (hrst | ⟨hlast, -⟩)
    · exact absurd hrst (by decide)
    · cases (Option.some.inj hst).symm.trans hlast
  have hacc : (s₃.table.accept 2 80).2 = some k := by decide +kernel
  obtain ⟨hret, hlive⟩ := (accept_queues_valid h₃).2.2 2 80 k hacc
  exact ⟨s₃, k, h₃, hacc, hret, hlive⟩

/-- A RST removes a connection and leaves its key in the queue, where `accept` finds it;
the same 4-tuple connects again, and its key waits twice. -/
theorem exists_stale_key :
    ∃ (s s' : Acceptor) (k : ConnectionKey),
      s.Reachable (fun _ _ ↦ True) ∧ s'.Reachable (fun _ _ ↦ True) ∧
      (s.table.accept 2 80).2 = some k ∧ s.table.lookup k = none ∧
      s'.table.acceptQueues.lookup (2, 80) = some [k, k] := by
  let k : ConnectionKey := ⟨2, 80, 1, 7⟩
  let syn : Packet := ⟨1, 2, ⟨7, 80, 500, 0, 80, tcpSyn, 1000, 0, 0⟩, []⟩
  let ack : Packet := ⟨1, 2, ⟨7, 80, 501, 1001, 80, tcpAck, 1000, 0, 0⟩, []⟩
  let rst : Packet := ⟨1, 2, ⟨7, 80, 501, 0, 80, tcpRst, 0, 0, 0⟩, []⟩
  let s₁ := (new.step (.listen 2 80 false)).step (.segment 0 1000 syn.ipHeader syn.segment)
  let s₂ := s₁.step (.segment 0 0 ack.ipHeader ack.segment)
  let s₃ := s₂.step (.segment 0 0 rst.ipHeader rst.segment)
  let s₄ := s₃.step (.segment 0 1000 syn.ipHeader syn.segment)
  let s₅ := s₄.step (.segment 0 0 ack.ipHeader ack.segment)
  have h₃ : s₃.Reachable fun _ _ ↦ True :=
    .tail _ (.tail _ (.tail _ (.tail _ (.start rfl) trivial) trivial) trivial) trivial
  have h₅ : s₅.Reachable fun _ _ ↦ True := .tail _ (.tail _ h₃ trivial) trivial
  exact ⟨s₃, s₅, k, h₃, h₅, by decide +kernel, by decide +kernel, by decide +kernel⟩

end Acceptor

end MiniTcp
