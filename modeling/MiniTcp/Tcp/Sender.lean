import MiniTcp.Tcp.Track

/-!
# The sending half

Whatever segments arrive, the bytes accepted by `send` leave in order: first
transmissions and `send_pending` together are the accepted stream, and every data
segment other than the persist probe carries the bytes that belong at its number.
-/

namespace MiniTcp

open Serial

def TcpState.finSent : TcpState → Bool
  | .finWait1 | .finWait2 | .closing | .lastAck | .timeWait => true
  | _ => false

/-! ## What the actions do to the sending half -/

/-- The action sends a segment for the first time: data or the FIN. -/
structure QueuesNew (c : TcpConnection) (a : Effect) (c' : TcpConnection) (flags : UInt8)
    (data : Bytes) : Prop where
  sends : c.state.sends
  out : a.out = [⟨.queued, c.sendSegment flags c.sndNxt data⟩]
  accepted : a.accepted = []
  pending : c.sendPending = data ++ c'.sendPending
  next : c'.sndNxt = c.sndNxt + consumed flags data.length
  queue : ∃ now, c'.retransmitQueue =
    c.retransmitQueue ++ [⟨c.sndNxt, flags, data, now, initialRto, 0⟩]
  kind : (flags = tcpAck ||| tcpPsh ∧ data ≠ [] ∧ data.length ≤ c.chunkLen ∧
      c'.state = c.state) ∨
    (flags = tcpFin ||| tcpAck ∧ data = [] ∧ c'.state.finSent ∧ c'.sendPending = [])

/-- A segment that is not sent for the first time: a persist probe, a repetition
of a queued segment, or a bare acknowledgement. -/
def Repeats (c : TcpConnection) (m : Emission) : Prop :=
  (m.origin = .probe ∧ c.state.sends ∧ m.flags = tcpAck ∧ m.seq = c.sndUna - 1 ∧ m.data = [0]) ∨
    m.origin ≠ .probe ∧
      ((∃ u ∈ c.retransmitQueue, m.flags = u.flags ∧ m.seq = u.seq ∧ m.data = u.data) ∨
        m.flags = tcpAck ∧ m.data = [])

structure QueuesNothing (c : TcpConnection) (a : Effect) (c' : TcpConnection) : Prop where
  next : c'.sndNxt = c.sndNxt
  pending : c'.sendPending = c.sendPending ++ a.accepted
  queue : ∀ u ∈ c'.retransmitQueue, ∃ v ∈ c.retransmitQueue,
    v.flags = u.flags ∧ v.seq = u.seq ∧ v.data = u.data
  out : ∀ m ∈ a.out, m.queued = false ∧ Repeats c m
  state : c'.state = .closed ∨ c.state ≠ .closed ∧ c'.state.finSent = c.state.finSent

namespace TcpConnection

theorem same_queue (c : TcpConnection) : ∀ u ∈ c.retransmitQueue, ∃ v ∈ c.retransmitQueue,
    v.flags = u.flags ∧ v.seq = u.seq ∧ v.data = u.data :=
  fun u hu ↦ ⟨u, hu, rfl, rfl, rfl⟩

theorem removeAcked_queue (c : TcpConnection) (una : UInt32) :
    ∀ u ∈ (c.removeAcked una).retransmitQueue, ∃ v ∈ c.retransmitQueue,
      v.flags = u.flags ∧ v.seq = u.seq ∧ v.data = u.data :=
  fun u hu ↦ ⟨u, (List.dropWhile_suffix _).subset hu, rfl, rfl, rfl⟩

theorem processAck_queue (c : TcpConnection) (seg : TcpHeader) :
    ∀ u ∈ (c.processAck seg).retransmitQueue, ∃ v ∈ c.retransmitQueue,
      v.flags = u.flags ∧ v.seq = u.seq ∧ v.data = u.data := by
  unfold processAck
  dsimp only
  split_ifs <;>
    first
      | exact c.same_queue
      | exact removeAcked_queue { c with sndUna := seg.ackNum } seg.ackNum

theorem chunkLen_le (c : TcpConnection) :
    c.chunkLen ≤ mss ∧ c.chunkLen ≤ c.sendPending.length := by
  unfold chunkLen
  dsimp only
  split_ifs <;> omega

end TcpConnection

namespace Act

variable {g : Guard} {c c' : TcpConnection} {a : Effect}

theorem identity_eq (h : Act g c a c') : c'.identity = c.identity := by
  cases h with
  | @ack seg =>
      obtain ⟨una, queue, wnd, deadline, rto, hack⟩ := TcpConnection.processAck_eq c seg
      rw [hack]
      rfl
  | @receive seg payload =>
      obtain ⟨nxt, buf, ooo, hconn⟩ := TcpConnection.receive_eq c seg payload
      rw [hconn]
      rfl
  | _ => rfl

theorem iss_eq (h : Act g c a c') : c'.iss = c.iss :=
  congrArg TcpConnection.Identity.iss h.identity_eq

theorem same_state (hs : c'.state = c.state) :
    c'.state = .closed ∨ c.state ≠ .closed ∧ c'.state.finSent = c.state.finSent := by
  rw [hs]
  by_cases hc : c.state = .closed
  · exact .inl hc
  · exact .inr ⟨hc, rfl⟩

theorem queuesNothing_of_silent (hout : a.out = []) (hnext : c'.sndNxt = c.sndNxt)
    (hpend : c'.sendPending = c.sendPending ++ a.accepted)
    (hqueue : ∀ u ∈ c'.retransmitQueue, ∃ v ∈ c.retransmitQueue,
      v.flags = u.flags ∧ v.seq = u.seq ∧ v.data = u.data)
    (hstate : c'.state = .closed ∨ c.state ≠ .closed ∧ c'.state.finSent = c.state.finSent) :
    QueuesNothing c a c' :=
  ⟨hnext, hpend, hqueue, by simp [hout], hstate⟩

theorem repeats_ack (c : TcpConnection) (m : Emission) (hm : m.origin = .ack)
    (hflags : m.flags = tcpAck) (hdata : m.data = []) : m.queued = false ∧ Repeats c m := by
  refine ⟨by simp [Emission.queued, hm], .inr ⟨by simp [hm], .inr ⟨hflags, hdata⟩⟩⟩

theorem finSent_afterReceive {s s' : TcpState} {fin : Bool} (h : s.AfterReceive fin s') :
    s'.finSent = s.finSent := by
  cases fin with
  | false =>
      rcases h with rfl | ⟨rfl, rfl⟩ <;> rfl
  | true =>
      rcases h with ⟨rfl, rfl⟩ | ⟨rfl, rfl | rfl⟩ | ⟨rfl, rfl⟩ <;> rfl

theorem queuesNothing_receive {seg : TcpHeader} {payload : Bytes} {s : TcpState}
    {deadline : Instant} (hrec : c.state.receives)
    (hs : c.state.AfterReceive (c.receiveDataAndMaybeFin seg payload).fin s) :
    QueuesNothing c
      { out := (c.receiveDataAndMaybeFin seg payload).out
        fin := (c.receiveDataAndMaybeFin seg payload).fin }
      { (c.receiveDataAndMaybeFin seg payload).conn with
        state := s
        timeWaitDeadline := deadline } := by
  obtain ⟨nxt, buf, ooo, hconn⟩ := TcpConnection.receive_eq c seg payload
  have hopen : c.state ≠ .closed := by
    intro hclosed
    rw [hclosed] at hrec
    cases hrec
  refine ⟨by rw [hconn], by rw [hconn]; exact (List.append_nil _).symm,
    by rw [hconn]; exact c.same_queue, fun m hm ↦ ?_, .inr ⟨hopen, finSent_afterReceive hs⟩⟩
  rw [TcpConnection.receive_out c seg payload m hm]
  exact repeats_ack c _ rfl rfl rfl

theorem queuesNew_chunk (now : Instant) (hst : c.state.sends) (hpos : c.chunkLen ≠ 0) :
    QueuesNew c { out := (c.sendChunk now c.chunkLen).2 } (c.sendChunk now c.chunkLen).1
      (tcpAck ||| tcpPsh) (c.sendPending.take c.chunkLen) := by
  have hle := c.chunkLen_le
  refine ⟨hst, rfl, rfl, (List.take_append_drop _ _).symm, rfl, ⟨now, rfl⟩,
    .inl ⟨rfl, ?_, ?_, rfl⟩⟩
  · intro hnil
    have hlen := congrArg List.length hnil
    simp only [List.length_take, List.length_nil] at hlen
    omega
  · exact List.length_take_le _ _

/-- Every action sends one new segment or none. -/
theorem outbound_cases (h : Act g c a c') :
    (∃ flags data, QueuesNew c a c' flags data) ∨ QueuesNothing c a c' := by
  cases h with
  | chunk now hst hpos => exact .inl ⟨_, _, queuesNew_chunk now hst hpos⟩
  | sendFin now s hs hempty =>
      refine .inl ⟨tcpFin ||| tcpAck, [], ?_, rfl, rfl, rfl, rfl, ⟨now, rfl⟩,
        .inr ⟨rfl, rfl, ?_, hempty⟩⟩
      · rcases hs with ⟨hs, -⟩ | ⟨hs, -⟩ <;> rw [hs] <;> rfl
      · rcases hs with ⟨-, rfl⟩ | ⟨-, rfl⟩ <;> rfl
  | receive s deadline hrec _ hs => exact .inr (queuesNothing_receive hrec hs)
  | synAck hst | finalAck hst =>
      exact .inr (queuesNothing_of_silent rfl rfl (List.append_nil _).symm
        (TcpConnection.removeAcked_queue _ _) (.inr ⟨by simp [hst], by rw [hst]; rfl⟩))
  | @ack seg =>
      obtain ⟨una, queue, wnd, deadline, rto, hack⟩ := TcpConnection.processAck_eq c seg
      exact .inr (queuesNothing_of_silent rfl (by rw [hack])
        (by rw [hack]; exact (List.append_nil _).symm) (TcpConnection.processAck_queue c seg)
        (same_state (TcpConnection.processAck_state c seg)))
  | ackOnly =>
      refine .inr ⟨rfl, (List.append_nil _).symm, c.same_queue, fun m hm ↦ ?_, same_state rfl⟩
      rw [List.mem_singleton.mp hm]
      exact repeats_ack c _ rfl rfl rfl
  | probe hst =>
      refine .inr ⟨rfl, (List.append_nil _).symm, c.same_queue, fun m hm ↦ ?_, same_state rfl⟩
      rw [List.mem_singleton.mp hm]
      exact ⟨rfl, .inl ⟨rfl, hst, rfl, rfl, rfl⟩⟩
  | @resend front rest now rto retries hq =>
      refine .inr ⟨rfl, (List.append_nil _).symm, fun u hu ↦ ?_, fun m hm ↦ ?_, same_state rfl⟩
      · rw [hq]
        rcases List.mem_cons.mp hu with rfl | hu
        · exact ⟨front, by simp, rfl, rfl, rfl⟩
        · exact ⟨u, List.mem_cons_of_mem _ hu, rfl, rfl, rfl⟩
      · rw [List.mem_singleton.mp hm]
        exact ⟨rfl, .inr ⟨by simp, .inl ⟨front, by simp [hq], rfl, rfl, rfl⟩⟩⟩
  | abort =>
      exact .inr (queuesNothing_of_silent rfl rfl (List.append_nil _).symm c.same_queue
        (.inl rfl))
  | finAcked deadline hst =>
      exact .inr (queuesNothing_of_silent rfl rfl (List.append_nil _).symm c.same_queue
        (.inr ⟨by simp [hst], by rw [hst]; rfl⟩))
  | accept data => exact .inr (queuesNothing_of_silent rfl rfl rfl c.same_queue (same_state rfl))
  | timers | take | requestClose | recvCap | sendCap =>
      exact .inr (queuesNothing_of_silent rfl rfl (List.append_nil _).symm c.same_queue
        (same_state rfl))

end Act

/-! ## The invariant of the sending half -/

/-- A segment carries what belongs at its number: SYN stands at `iss`, the data is
found in the sent bytes `tx`, and FIN stands right behind them. -/
structure Faithful (iss : UInt32) (tx : Bytes) (fins : ℕ) (flags : UInt8) (seq : UInt32)
    (data : Bytes) : Prop where
  syn : hasFlag flags tcpSyn → seq = iss ∧ data = []
  carries : data ≠ [] → ∃ p, seq = shift iss (1 + p) ∧ p ≤ tx.length ∧ data <+: tx.drop p
  fin : hasFlag flags tcpFin → fins = 1 ∧ data = [] ∧ seq = shift iss (1 + tx.length)

namespace Faithful

variable {iss seq : UInt32} {tx tx' data : Bytes} {fins fins' : ℕ} {flags : UInt8}

theorem mono (h : Faithful iss tx fins flags seq data) (htx : tx <+: tx')
    (hfin : fins = 1 → fins' = 1 ∧ tx' = tx) : Faithful iss tx' fins' flags seq data where
  syn := h.syn
  carries hne := by
    obtain ⟨p, hseq, hp, hd⟩ := h.carries hne
    obtain ⟨x, rfl⟩ := htx
    exact ⟨p, hseq, by simp; omega, List.prefix_drop_append x hp hd⟩
  fin hf := by
    obtain ⟨hone, hd, hseq⟩ := h.fin hf
    obtain ⟨hone', rfl⟩ := hfin hone
    exact ⟨hone', hd, hseq⟩

theorem ofAck : Faithful iss tx fins tcpAck seq [] where
  syn h := absurd h (by decide)
  carries h := absurd rfl h
  fin h := absurd h (by decide)

theorem ofChunk (htx : tx = tx' ++ data) (hseq : seq = shift iss (1 + tx'.length)) :
    Faithful iss tx fins (tcpAck ||| tcpPsh) seq data where
  syn h := absurd h (by decide)
  carries _ := ⟨tx'.length, hseq, by simp [htx], by simp [htx]⟩
  fin h := absurd h (by decide)

theorem ofFin (hfins : fins = 1) (hseq : seq = shift iss (1 + tx.length)) :
    Faithful iss tx fins (tcpFin ||| tcpAck) seq [] where
  syn h := absurd h (by decide)
  carries h := absurd rfl h
  fin _ := ⟨hfins, rfl, hseq⟩

end Faithful

/-- The sending half, whatever the peer does. -/
structure SndInv (c : TcpConnection) (w : Effect) : Prop where
  pending : sentBytes w.out ++ c.sendPending = w.accepted
  next : c.sndNxt = shift c.iss (sentLen w.out)
  len : sentLen w.out = 1 + (sentBytes w.out).length + finCount w.out
  fin_le : finCount w.out ≤ 1
  finSent : c.state.finSent → finCount w.out = 1
  unfinished : c.state.finSent = false → c.state ≠ .closed → finCount w.out = 0
  queue : ∀ u ∈ c.retransmitQueue,
    Faithful c.iss (sentBytes w.out) (finCount w.out) u.flags u.seq u.data ∧
      ∃ m ∈ w.out, m.flags = u.flags ∧ m.seq = u.seq ∧ m.data = u.data
  out : ∀ m ∈ w.out, (m.origin = .probe ∧ m.flags = tcpAck ∧ m.data = [0]) ∨
    m.origin ≠ .probe ∧
      Faithful c.iss (sentBytes w.out) (finCount w.out) m.flags m.seq m.data

namespace SndInv

variable {g : Guard} {c c' : TcpConnection} {w a : Effect} {flags : UInt8} {data : Bytes}

theorem finCount_of_sends (h : SndInv c w) (hst : c.state.sends) : finCount w.out = 0 := by
  apply h.unfinished
  · cases hs : c.state <;> simp_all [TcpState.sends, TcpState.finSent]
  · intro hs
    rw [hs] at hst
    cases hst

theorem queuesNew (h : SndInv c w) (hiss : c'.iss = c.iss) (hq : QueuesNew c a c' flags data) :
    SndInv c' (w + a) := by
  have hzero := h.finCount_of_sends hq.sends
  have hnext := h.next
  have hlen := h.len
  have hbytes : sentBytes a.out = data := by rw [hq.out, sentBytes_queued]; rfl
  have hseqLen : sentLen a.out = seqLen flags data.length := by rw [hq.out, sentLen_queued]; rfl
  have hcount : finCount a.out = (hasFlag flags tcpFin).toNat := by
    rw [hq.out, finCount_queued]
    rfl
  have hpending : sentBytes (w + a).out ++ c'.sendPending = (w + a).accepted := by
    rw [Effect.add_out, Effect.add_accepted, hq.accepted, List.append_nil, ← h.pending,
      sentBytes_append, hbytes, hq.pending, List.append_assoc]
  have hnext' : c'.sndNxt = shift c'.iss (sentLen (w + a).out) := by
    rw [hq.next, hiss, Effect.add_out, sentLen_append, hseqLen, hnext, consumed_eq, add_ofNat,
      shift_shift]
  have hplace : c.sndNxt = shift c.iss (1 + (sentBytes w.out).length) := by
    rw [hnext, hlen, hzero]
    rfl
  obtain ⟨now, hqueue⟩ := hq.queue
  -- what is left to say depends on the kind of the new segment
  suffices hkind : finCount (w + a).out ≤ 1 ∧
      sentLen (w + a).out = 1 + (sentBytes (w + a).out).length + finCount (w + a).out ∧
      (c'.state.finSent → finCount (w + a).out = 1) ∧
      (c'.state.finSent = false → finCount (w + a).out = 0) ∧
      Faithful c'.iss (sentBytes (w + a).out) (finCount (w + a).out) flags c.sndNxt data by
    obtain ⟨hle, hlen', hsent, hnot, hnew⟩ := hkind
    have hold {f s d} (hf : Faithful c.iss (sentBytes w.out) (finCount w.out) f s d) :
        Faithful c'.iss (sentBytes (w + a).out) (finCount (w + a).out) f s d := by
      rw [hiss]
      exact hf.mono (by simp) (by omega)
    refine ⟨hpending, hnext', hlen', hle, hsent, fun hf _ ↦ hnot hf, fun u hu ↦ ?_, fun m hm ↦ ?_⟩
    · rw [hqueue] at hu
      rcases List.mem_append.mp hu with hu | hu
      · obtain ⟨hf, m, hm, hsame⟩ := h.queue u hu
        exact ⟨hold hf, m, List.mem_append_left _ hm, hsame⟩
      · rw [List.mem_singleton.mp hu]
        exact ⟨hnew, _, List.mem_append_right _ (hq.out ▸ List.mem_singleton_self _),
          rfl, rfl, rfl⟩
    · rcases List.mem_append.mp hm with hm | hm
      · exact (h.out m hm).imp id fun hf ↦ ⟨hf.1, hold hf.2⟩
      · rw [hq.out] at hm
        rw [List.mem_singleton.mp hm]
        exact .inr ⟨by simp, hnew⟩
  simp only [Effect.add_out, sentBytes_append, sentLen_append, finCount_append, hbytes, hseqLen,
    hzero, hiss, hcount]
  rcases hq.kind with ⟨rfl, -, -, hst⟩ | ⟨rfl, rfl, hst, -⟩
  · have hsyn : hasFlag (tcpAck ||| tcpPsh) tcpSyn = false := by decide
    have hfin : hasFlag (tcpAck ||| tcpPsh) tcpFin = false := by decide
    have hno : c'.state.finSent = false := by
      rw [hst]
      have hs := hq.sends
      cases hc : c.state <;> simp_all [TcpState.sends, TcpState.finSent]
    simp only [seqLen, hsyn, hfin, Bool.toNat_false, List.length_append]
    exact ⟨by omega, by omega, by simp [hno], by simp, .ofChunk rfl hplace⟩
  · have hlen₁ : seqLen (tcpFin ||| tcpAck) ([] : Bytes).length = 1 := by decide
    have hfin : hasFlag (tcpFin ||| tcpAck) tcpFin = true := by decide
    simp only [hlen₁, hfin, Bool.toNat_true, List.append_nil]
    exact ⟨by omega, by omega, by simp, by simp [hst], .ofFin rfl hplace⟩

theorem queuesNothing (h : SndInv c w) (hiss : c'.iss = c.iss) (hq : QueuesNothing c a c') :
    SndInv c' (w + a) := by
  have hnot : ∀ m ∈ a.out, m.queued = false := fun m hm ↦ (hq.out m hm).1
  have hbytes : sentBytes (w + a).out = sentBytes w.out := by
    simp [sentBytes_of_not_queued hnot]
  have hslen : sentLen (w + a).out = sentLen w.out := by simp [sentLen_of_not_queued hnot]
  have hcount : finCount (w + a).out = finCount w.out := by simp [finCount_of_not_queued hnot]
  refine ⟨?_, ?_, ?_, ?_, fun hf ↦ ?_, fun hf hc ↦ ?_, fun u hu ↦ ?_, fun m hm ↦ ?_⟩
  · rw [hbytes, hq.pending, Effect.add_accepted, ← h.pending, List.append_assoc]
  · rw [hq.next, hiss, hslen, h.next]
  · rw [hslen, hbytes, hcount, h.len]
  · rw [hcount]
    exact h.fin_le
  · rw [hcount]
    rcases hq.state with hs | ⟨-, hs⟩
    · rw [hs] at hf
      cases hf
    · exact h.finSent (hs ▸ hf)
  · rw [hcount]
    rcases hq.state with hs | ⟨hopen, hs⟩
    · exact absurd hs hc
    · exact h.unfinished (hs ▸ hf) hopen
  · obtain ⟨v, hv, hflags, hseq, hdata⟩ := hq.queue u hu
    obtain ⟨hf, m, hm, hsame⟩ := h.queue v hv
    rw [hflags, hseq, hdata] at hf hsame
    rw [hbytes, hcount, hiss]
    exact ⟨hf, m, List.mem_append_left _ hm, hsame⟩
  · rw [hbytes, hcount, hiss]
    rcases List.mem_append.mp hm with hm | hm
    · exact h.out m hm
    · rcases (hq.out m hm).2 with ⟨ho, -, hflags, -, hdata⟩ | ⟨ho, ⟨u, hu, hf, hs, hd⟩ | ⟨hf, hd⟩⟩
      · exact .inl ⟨ho, hflags, hdata⟩
      · rw [hf, hs, hd]
        exact .inr ⟨ho, (h.queue u hu).1⟩
      · rw [hf, hd]
        exact .inr ⟨ho, .ofAck⟩

theorem step (h : SndInv c w) (hact : Act g c a c') : SndInv c' (w + a) := by
  rcases hact.outbound_cases with ⟨flags, data, hq⟩ | hq
  · exact h.queuesNew hact.iss_eq hq
  · exact h.queuesNothing hact.iss_eq hq

theorem after_fin (h : SndInv c w) (hact : Act g c a c') (hfin : finCount w.out = 1) :
    sentBytes (w + a).out = sentBytes w.out ∧ finCount (w + a).out = 1 := by
  rcases hact.outbound_cases with ⟨flags, data, hq⟩ | hq
  · have hzero := h.finCount_of_sends hq.sends
    omega
  · have hnot : ∀ m ∈ a.out, m.queued = false := fun m hm ↦ (hq.out m hm).1
    simp [sentBytes_of_not_queued hnot, finCount_of_not_queued hnot, hfin]

end SndInv

theorem Acts.fin_pending {g : Guard} {c c' : TcpConnection} {a : Effect} (h : Acts g c a c')
    (hacc : a.accepted = []) : finCount a.out = 0 ∨ c'.sendPending = [] := by
  have hinv := h.invariant (w := 0)
    (P := fun c w ↦ w.accepted = [] → finCount w.out = 0 ∨ c.sendPending = [])
    (fun c c' w a ih hact hacc ↦ ?_) fun _ ↦ .inl rfl
  · simpa [hacc] using hinv
  · rw [Effect.add_accepted, List.append_eq_nil_iff] at hacc
    have ih := ih hacc.1
    rw [Effect.add_out, finCount_append]
    rcases hact.outbound_cases with ⟨flags, data, hq⟩ | hq
    · rcases hq.kind with ⟨rfl, hne, -, -⟩ | ⟨-, -, -, hempty⟩
      · have hzero := ih.resolve_right fun hnil ↦ by simp [hq.pending, hne] at hnil
        left
        rw [hzero, hq.out, finCount_queued, Nat.zero_add]
        exact (by decide : (hasFlag (tcpAck ||| tcpPsh) tcpFin).toNat = 0)
      · exact .inr hempty
    · rw [finCount_of_not_queued fun m hm ↦ (hq.out m hm).1, hq.pending, hacc.2, List.append_nil]
      exact ih

theorem TcpConnection.step_fin_pending (c : TcpConnection) (e : ConnEvent) :
    finCount (c.step e).2.out = 0 ∨ (c.step e).1.sendPending = [] := by
  cases e with
  | send now data =>
      -- what is accepted here is pending before the flush starts
      have hflush := flushSend_acts {} now
        { c with sendPending := c.sendPending ++ c.acceptedPrefix data }
      exact hflush.fin_pending rfl
  | _ => exact Acts.fin_pending (step_acts (Guard.admits_empty c _)) rfl

namespace Track

variable {g : Guard} {t : Track}

theorem sndInv_syn {c : TcpConnection} {w : Effect} {u : UnackedSegment} {p : Packet}
    (flags : UInt8) (hflag : hasFlag flags tcpSyn = true ∧ hasFlag flags tcpFin = false)
    (hout : w.out = [⟨.queued, p⟩]) (hqueue : c.retransmitQueue = [u])
    (hp : p.hdr.flags = flags ∧ p.hdr.seqNum = c.iss ∧ p.data = [])
    (hu : u.flags = flags ∧ u.seq = c.iss ∧ u.data = []) (hacc : w.accepted = [])
    (hpend : c.sendPending = []) (hnext : c.sndNxt = c.iss + 1) (hst : c.state.handshake) :
    SndInv c w := by
  obtain ⟨hpf, hps, hpd⟩ := hp
  obtain ⟨huf, hus, hud⟩ := hu
  have hbytes : sentBytes w.out = [] := by rw [hout, sentBytes_queued, hpd]
  have hlen : sentLen w.out = 1 := by
    simp [hout, hpf, hpd, seqLen, hflag]
  have hcount : finCount w.out = 0 := by
    simp [hout, hpf, hflag]
  have hfaith : Faithful c.iss [] 0 flags c.iss [] :=
    ⟨fun _ ↦ ⟨rfl, rfl⟩, fun h ↦ absurd rfl h, fun h ↦ by simp [hflag.2] at h⟩
  refine ⟨by simp [hbytes, hpend, hacc], by rw [hlen, hnext]; rfl, by simp [hbytes, hlen, hcount],
    by omega, fun hf ↦ ?_, fun _ _ ↦ hcount, fun v hv ↦ ?_, fun m hm ↦ ?_⟩
  · cases hs : c.state <;> simp [hs, TcpState.handshake, TcpState.finSent] at hst hf
  · rw [hqueue] at hv
    rw [List.mem_singleton.mp hv, hbytes, hcount, huf, hus, hud, hout]
    exact ⟨hfaith, _, List.mem_singleton_self _, hpf, hps, hpd⟩
  · rw [hout] at hm
    rw [List.mem_singleton.mp hm, hbytes, hcount]
    refine .inr ⟨by simp, ?_⟩
    change Faithful c.iss [] 0 p.hdr.flags p.hdr.seqNum p.data
    rw [hpf, hps, hpd]
    exact hfaith

theorem Opened.sndInv (h : t.Opened) : SndInv t.conn t.hist := by
  rcases h with ⟨now, iss, key, rfl⟩ | ⟨now, iss, key, seg, rfl⟩
  · exact sndInv_syn tcpSyn (by decide) rfl rfl ⟨rfl, rfl, rfl⟩ ⟨rfl, rfl, rfl⟩ rfl rfl
      rfl rfl
  · exact sndInv_syn (tcpSyn ||| tcpAck) (by decide) rfl rfl ⟨rfl, rfl, rfl⟩
      ⟨rfl, rfl, rfl⟩ rfl rfl rfl rfl

theorem Reachable.sndInv (h : t.Reachable g) : SndInv t.conn t.hist :=
  h.invariant (fun _ hopen ↦ hopen.sndInv) fun _ _ _ _ hinv hact ↦ hinv.step hact

theorem sent_step (h : SndInv t.conn t.hist) (e : ConnEvent) :
    sentBytes t.hist.out <+: sentBytes (t.step e).hist.out ∧
      (finCount t.hist.out = 1 → sentBytes (t.step e).hist.out = sentBytes t.hist.out ∧
        finCount (t.step e).hist.out = 1) := by
  refine ⟨by simp [step], fun hfin ↦ ?_⟩
  refine (step_invariant (g := {}) (P := fun c w ↦ SndInv c w ∧
    sentBytes w.out = sentBytes t.hist.out ∧ finCount w.out = 1)
    (fun c c' w a hinv hact ↦ ?_) (Guard.admits_empty _ e) ⟨h, rfl, hfin⟩).2
  obtain ⟨hbytes, hone⟩ := hinv.1.after_fin hact hinv.2.2
  exact ⟨hinv.1.step hact, hbytes.trans hinv.2.1, hone⟩

/-- The FIN stands behind exactly the bytes accepted before it was queued. -/
theorem Reachable.beforeFin_eq (h : t.Reachable g) :
    t.finSent → t.beforeFin = sentBytes t.hist.out := by
  refine Run.Reaches.invariant
    (P := fun t : Track ↦ t.finSent → t.beforeFin = sentBytes t.hist.out) ?_ ?_ h
  · rintro t (⟨now, iss, key, rfl⟩ | ⟨now, iss, key, seg, rfl⟩) hfin <;>
      simp [finSent, active, passive, TcpConnection.activeOpen, TcpConnection.passiveOpen,
        TcpConnection.queueAndSend, TcpConnection.sendSegment] at hfin <;>
      exact absurd hfin (by decide)
  · intro t e hreach _ ih hfin
    have hsnd := Reachable.sndInv hreach
    change (if t.finSent then t.beforeFin
      else t.hist.accepted ++ (t.conn.step e).2.accepted) = _
    cases hsent : t.finSent with
    | true =>
        have hone : finCount t.hist.out = 1 := by
          have hle := hsnd.fin_le
          simp only [finSent, bne_iff_ne, ne_eq] at hsent
          omega
        rw [((sent_step hsnd e).2 hone).1]
        exact ih hsent
    | false =>
        have hpending : (t.step e).conn.sendPending = [] := by
          refine (t.conn.step_fin_pending e).resolve_left fun hzero ↦ ?_
          simp only [finSent, bne_eq_false_iff_eq] at hsent
          simp [finSent, step, hsent, hzero] at hfin
        have hall := (Reachable.sndInv (Run.Reaches.tail e hreach ‹_›)).pending
        rw [hpending, List.append_nil] at hall
        exact hall.symm

/-- First transmissions and `send_pending` together are the accepted bytes, and
every data segment but the probe carries the bytes that belong at its number. -/
theorem sent_eq_accepted (h : t.Reachable {}) (hlen : t.hist.accepted.length < 2 ^ 32 - 2) :
    sentBytes t.hist.out ++ t.conn.sendPending = t.hist.accepted ∧
      ∀ m ∈ t.hist.out, m.data ≠ [] → m.origin ≠ .probe →
        m.data <+: t.hist.accepted.drop (m.seq - t.conn.iss - 1).toNat := by
  have hinv := h.sndInv
  refine ⟨hinv.pending, fun m hm hne ho ↦ ?_⟩
  rcases hinv.out m hm with ⟨hprobe, -⟩ | ⟨-, hf⟩
  · exact absurd hprobe ho
  · obtain ⟨p, hseq, hp, hd⟩ := hf.carries hne
    have hle : (sentBytes t.hist.out).length ≤ t.hist.accepted.length := by
      rw [← hinv.pending, List.length_append]
      omega
    rw [hseq, toNat_shift_one_add_sub (by omega), ← hinv.pending]
    exact List.prefix_drop_append _ hp hd

/-- Two chunks, one of them retransmitted, behind an initial number that wraps. -/
theorem sent_eq_accepted_retransmit :
    ∃ t : Track, t.hist.out.length = 5 ∧ t.hist.accepted = [1, 2, 3] ∧
      sentBytes t.hist.out ++ t.conn.sendPending = t.hist.accepted ∧
      ∀ m ∈ t.hist.out, m.data ≠ [] → m.origin ≠ .probe →
        m.data <+: t.hist.accepted.drop (m.seq - t.conn.iss - 1).toNat := by
  let synAck : TcpHeader := ⟨80, 49152, 500, 4294967295, 80, tcpSyn ||| tcpAck, 1000, 0, 0⟩
  let t₀ : Track := .active 0 4294967294 ⟨1, 49152, 2, 80⟩
  let t₁ := t₀.step (.segment 0 synAck [])
  let t₂ := (t₁.step (.send 0 [1, 2])).step (.send 0 [3])
  have h : (t₂.step (.tick 1000000000)).Reachable {} := by
    refine .tail _ (.tail _ (.tail _ (.tail _ (.start (.inl ⟨0, _, _, rfl⟩)) ?_) ?_) ?_) ?_ <;>
      exact Guard.admits_empty _ _
  exact ⟨_, by decide, by decide, sent_eq_accepted h (by decide)⟩

end Track

end MiniTcp
