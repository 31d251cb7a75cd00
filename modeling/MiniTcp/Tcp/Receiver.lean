import MiniTcp.Tcp.Track

/-!
# The receiving half

The receiver of a stream `S` whose first byte has number `b`.  As long as every
segment it takes in is a piece of `S` or stale, what it has received is a prefix
of `S` and `rcv_nxt` stands right behind it.  Numbers are only compared for
equality in the argument, so it does not matter where they wrap.
-/

namespace MiniTcp

open Serial

namespace TcpConnection

variable {b : UInt32} {S pre : Bytes} {c : TcpConnection} {seg : TcpHeader} {payload : Bytes}

/-! ## Taking in one segment -/

/-- The receiving half follows the stream; `pre` was returned already. -/
structure Follows (b : UInt32) (S pre : Bytes) (c : TcpConnection) : Prop where
  stream : pre ++ c.recvBuffer <+: S
  next : c.rcvNxt = shift b (pre ++ c.recvBuffer).length
  pieces : ∀ s d, c.oooBuffer.lookup s = some d → Piece b S (pre ++ c.recvBuffer).length s d

theorem Follows.append (h : Follows b S pre c)
    (hd : payload <+: S.drop (pre ++ c.recvBuffer).length) :
    Follows b S pre (c.appendInOrder payload) := by
  have hlen : (pre ++ (c.recvBuffer ++ payload)).length =
      (pre ++ c.recvBuffer).length + payload.length := by simp [Nat.add_assoc]
  have hle := h.stream.length_le
  refine ⟨?_, ?_, fun s d hs ↦ ?_⟩
  · have htake := List.take_append_of_prefix_drop hle hd
    rw [← List.prefix_iff_eq_take.mp h.stream] at htake
    change pre ++ (c.recvBuffer ++ payload) <+: S
    rw [← List.append_assoc, htake]
    exact List.take_prefix _ _
  · change c.rcvNxt + UInt32.ofNat payload.length = shift b _
    rw [h.next, add_ofNat, shift_shift]
    exact congrArg _ hlen.symm
  · exact (h.pieces s d hs).mono (List.prefix_refl S) (hlen ▸ Nat.le_add_right _ _)

theorem Follows.erase (h : Follows b S pre c) (s : UInt32) :
    Follows b S pre { c with oooBuffer := AList.erase s c.oooBuffer } where
  stream := h.stream
  next := h.next
  pieces s' d hs := by
    rw [AssocMap.lookup_erase_eq] at hs
    split_ifs at hs
    exact h.pieces s' d hs

theorem Follows.splice (hS : S.length + 1 < 2 ^ 32) (fuel : ℕ) (h : Follows b S pre c) :
    Follows b S pre (splice fuel c).1 := by
  induction fuel generalizing c with
  | zero => exact h
  | succ fuel ih =>
      rw [TcpConnection.splice]
      cases hlook : c.oooBuffer.lookup c.rcvNxt with
      | none => exact h
      | some d =>
          have hpiece := h.pieces _ d hlook
          rw [h.next] at hpiece
          exact ih ((h.erase c.rcvNxt).append (hpiece.prefix_drop h.stream.length_le hS))

@[simp] theorem appendInOrder_recvBuffer (payload : Bytes) (c : TcpConnection) :
    (c.appendInOrder payload).recvBuffer = c.recvBuffer ++ payload := rfl

@[simp] theorem appendInOrder_rcvNxt (payload : Bytes) (c : TcpConnection) :
    (c.appendInOrder payload).rcvNxt = shift c.rcvNxt payload.length := rfl

/-- Splicing appends to `recv_buffer` and moves `rcv_nxt` by as much. -/
theorem splice_appends (fuel : ℕ) (c : TcpConnection) : ∃ bytes : Bytes,
    (splice fuel c).1.recvBuffer = c.recvBuffer ++ bytes ∧
      (splice fuel c).1.rcvNxt = shift c.rcvNxt bytes.length := by
  induction fuel generalizing c with
  | zero => exact ⟨[], by simp [TcpConnection.splice], by simp [TcpConnection.splice]⟩
  | succ fuel ih =>
      rw [TcpConnection.splice]
      split
      · exact ⟨[], by simp, by simp⟩
      · next data _ =>
          obtain ⟨bytes, hbuf, hnxt⟩ := ih (appendInOrder data
            { c with oooBuffer := AList.erase c.rcvNxt c.oooBuffer })
          refine ⟨data ++ bytes, ?_, ?_⟩
          · simp [hbuf]
          · simp [hnxt]

theorem receive_appends (c : TcpConnection) (seg : TcpHeader) (payload : Bytes) :
    ∃ bytes : Bytes,
      (c.receiveDataAndMaybeFin seg payload).conn.recvBuffer = c.recvBuffer ++ bytes ∧
        (c.receiveDataAndMaybeFin seg payload).conn.rcvNxt = shift c.rcvNxt
          (bytes.length + (c.receiveDataAndMaybeFin seg payload).fin.toNat) := by
  by_cases heq : seg.seqNum = c.rcvNxt
  · obtain ⟨bytes, hbuf, hnxt⟩ :=
      splice_appends c.oooBuffer.entries.length (c.appendInOrder payload)
    obtain ⟨hconn, hfin⟩ := receive_of_eq payload heq
    refine ⟨payload ++ bytes, ?_, ?_⟩
    · rw [hconn]
      dsimp only
      split_ifs <;> simp [hbuf]
    · rw [hconn, hfin]
      dsimp only
      split_ifs with hflag <;> simp [hnxt, hflag, add_one, Nat.add_assoc]
  · by_cases hgt : seg.seqNum > c.rcvNxt
    · obtain ⟨hconn, hfin⟩ := receive_of_gt payload heq hgt
      refine ⟨[], ?_, ?_⟩
      · rw [hconn]
        split_ifs <;> simp
      · rw [hconn, hfin]
        split_ifs <;> simp
    · obtain ⟨hconn, hfin⟩ := receive_of_lt payload heq hgt
      exact ⟨[], by simp [hconn], by simp [hconn, hfin]⟩

theorem receive_recvBuffer (c : TcpConnection) (seg : TcpHeader) (payload : Bytes) :
    c.recvBuffer <+: (c.receiveDataAndMaybeFin seg payload).conn.recvBuffer := by
  obtain ⟨bytes, hbuf, -⟩ := receive_appends c seg payload
  rw [hbuf]
  exact List.prefix_append _ _

theorem Follows.insert (h : Follows b S pre c)
    (hp : Piece b S (pre ++ c.recvBuffer).length seg.seqNum payload) :
    Follows b S pre { c with oooBuffer := AList.insert seg.seqNum payload c.oooBuffer } where
  stream := h.stream
  next := h.next
  pieces s d hs := by
    rw [AssocMap.lookup_insert_eq] at hs
    split_ifs at hs with heq
    · obtain rfl := Option.some.inj hs
      exact heq ▸ hp
    · exact h.pieces s d hs

def FinAt (b : UInt32) (S : Bytes) (seg : TcpHeader) (payload : Bytes) : Prop :=
  hasFlag seg.flags tcpFin → ∃ p, seg.seqNum = shift b p ∧ p + payload.length = S.length

/-- Taking in a piece of the stream: the half keeps following it, and a FIN is
consumed only behind the last byte. -/
theorem Follows.receive (hS : S.length + 1 < 2 ^ 32) (h : Follows b S pre c)
    (hp : payload ≠ [] → Piece b S (pre ++ c.recvBuffer).length seg.seqNum payload)
    (hfin : FinAt b S seg payload) :
    (c.receiveDataAndMaybeFin seg payload).fin = false ∧
        Follows b S pre (c.receiveDataAndMaybeFin seg payload).conn ∨
      (c.receiveDataAndMaybeFin seg payload).fin = true ∧
        ∃ c₂, Follows b S pre c₂ ∧ (pre ++ c₂.recvBuffer).length = S.length ∧
          (c.receiveDataAndMaybeFin seg payload).conn = { c₂ with rcvNxt := c₂.rcvNxt + 1 } := by
  by_cases heq : seg.seqNum = c.rcvNxt
  · obtain ⟨hconn, hf⟩ := receive_of_eq payload heq
    have hle := h.stream.length_le
    have hdrop : payload <+: S.drop (pre ++ c.recvBuffer).length := by
      by_cases hnil : payload = []
      · rw [hnil]
        exact List.nil_prefix
      · have hpiece := hp hnil
        rw [heq, h.next] at hpiece
        exact hpiece.prefix_drop hle hS
    have happ := h.append hdrop
    have hspl := happ.splice hS c.oooBuffer.entries.length
    rw [hconn, hf]
    cases hflag : hasFlag seg.flags tcpFin with
    | false => exact .inl ⟨rfl, hspl⟩
    | true =>
        refine .inr ⟨rfl, _, hspl, ?_, rfl⟩
        obtain ⟨p, hseq, hp⟩ := hfin hflag
        -- the FIN's place is the receiver's own, so the appended data ends the stream
        have hplace : (pre ++ c.recvBuffer).length = p := by
          rw [heq, h.next, shift_inj (by omega) (by omega)] at hseq
          exact hseq
        obtain ⟨bytes, hbuf, -⟩ :=
          splice_appends c.oooBuffer.entries.length (c.appendInOrder payload)
        have hbound := hspl.stream.length_le
        simp only [hbuf, appendInOrder_recvBuffer, List.length_append] at hbound hplace ⊢
        omega
  · by_cases hgt : seg.seqNum > c.rcvNxt
    · obtain ⟨hconn, hf⟩ := receive_of_gt payload heq hgt
      refine .inl ⟨hf, ?_⟩
      rw [hconn]
      split_ifs with hroom
      · refine h.insert (hp ?_)
        rintro rfl
        simp at hroom
      · exact h
    · obtain ⟨hconn, hf⟩ := receive_of_lt payload heq hgt
      exact .inl ⟨hf, hconn.symm ▸ h⟩

end TcpConnection

/-! ## What the actions do to the receiving half -/

def TcpState.finTaken : TcpState → Bool
  | .closeWait | .lastAck | .closing | .timeWait | .closed => true
  | _ => false

theorem TcpState.AfterReceive.finTaken {s s' : TcpState} {fin : Bool} (h : s.AfterReceive fin s')
    (hrec : s.receives) : s'.finTaken = fin := by
  cases fin with
  | false =>
      rcases h with rfl | ⟨rfl, rfl⟩
      · cases s' <;> simp_all [receives, TcpState.finTaken]
      · rfl
  | true =>
      rcases h with ⟨rfl, rfl⟩ | ⟨rfl, rfl | rfl⟩ | ⟨rfl, rfl⟩ <;> rfl

namespace Act

variable {g : Guard} {c c' : TcpConnection} {a : Effect}

theorem finTaken_mono (h : Act g c a c') (hst : c.state.finTaken) : c'.state.finTaken := by
  cases h with
  | receive s deadline hrec =>
      cases hs : c.state <;> simp_all [TcpState.finTaken, TcpState.receives]
  | sendFin now s hs =>
      rcases hs with ⟨h, rfl⟩ | ⟨-, rfl⟩
      · simp [h, TcpState.finTaken] at hst
      · rfl
  | ack => simpa using hst
  | synAck h | finalAck h => simp [h, TcpState.finTaken] at hst
  | finAcked | abort => rfl
  | _ => exact hst

theorem ackNum_out (h : Act g c a c') :
    ∀ m ∈ a.out, hasFlag m.flags tcpAck → m.packet.hdr.ackNum = c'.rcvNxt := by
  have hseg (c : TcpConnection) (o : Origin) (flags : UInt8) (seq : UInt32) (data : Bytes)
      (hf : hasFlag (Emission.flags ⟨o, c.sendSegment flags seq data⟩) tcpAck) :
      (c.sendSegment flags seq data).hdr.ackNum = c.rcvNxt := if_pos hf
  intro m hm hf
  cases h with
  | receive s deadline =>
      rw [TcpConnection.receive_out c _ _ m hm] at hf ⊢
      exact hseg _ _ _ _ _ hf
  | ackOnly | chunk | sendFin | probe | resend =>
      rw [List.mem_singleton.mp hm] at hf ⊢
      exact hseg _ _ _ _ _ hf
  | _ => cases hm

/-- The three things an action can do to the receiving half: learn the peer's
initial number, take in a segment, or leave the stream where it is. -/
theorem inbound_cases (h : Act g c a c') :
    (c.state = .synSent ∧ c'.state = .established ∧ a = { syn := true } ∧
        c'.rcvNxt = c'.irs + 1 ∧ c'.recvBuffer = c.recvBuffer ∧ c'.oooBuffer = c.oooBuffer) ∨
      (∃ seg payload, c.state.receives ∧ g.data c seg payload ∧ a.syn = false ∧
        a.returned = [] ∧ a.fin = (c.receiveDataAndMaybeFin seg payload).fin ∧
        c'.inbound = (c.receiveDataAndMaybeFin seg payload).conn.inbound ∧
        (a.fin → c'.state.finTaken) ∧ c'.state ≠ .synSent) ∨
      (a.syn = false ∧ a.fin = false ∧ c'.irs = c.irs ∧ c'.rcvNxt = c.rcvNxt ∧
        c'.oooBuffer = c.oooBuffer ∧ (∀ w, c'.received (w + a) = c.received w) ∧
        (c'.state = .synSent → c.state = .synSent)) := by
  have hkeep : a.returned = [] → c'.inbound = c.inbound →
      ∀ w, c'.received (w + a) = c.received w := by
    intro hret hin w
    have hbuf : c'.recvBuffer = c.recvBuffer := congrArg TcpConnection.Inbound.recvBuffer hin
    simp [TcpConnection.received, hret, hbuf]
  cases h with
  | synAck hst => exact .inl ⟨hst, rfl, rfl, rfl, rfl, rfl⟩
  | @receive seg payload s deadline hrec hg hs =>
      refine .inr (.inl ⟨seg, payload, hrec, hg, rfl, rfl, rfl, rfl, fun hfin ↦ ?_, ?_⟩)
      · exact (hs.finTaken hrec).trans hfin
      · rintro rfl
        cases (hs.handshake hrec).1
  | @ack seg =>
      have hin := TcpConnection.processAck_inbound c seg
      exact .inr (.inr ⟨rfl, rfl, congrArg TcpConnection.Inbound.irs hin,
        congrArg TcpConnection.Inbound.rcvNxt hin, congrArg TcpConnection.Inbound.oooBuffer hin,
        hkeep rfl hin, by simp⟩)
  | take n =>
      refine .inr (.inr ⟨rfl, rfl, rfl, rfl, rfl, fun w ↦ ?_, id⟩)
      simp [TcpConnection.received, List.append_assoc]
  | recvCap =>
      exact .inr (.inr ⟨rfl, rfl, rfl, rfl, rfl, fun w ↦ by simp [TcpConnection.received], id⟩)
  | finalAck | abort | finAcked =>
      exact .inr (.inr ⟨rfl, rfl, rfl, rfl, rfl, hkeep rfl rfl, by simp⟩)
  | sendFin now s hs =>
      refine .inr (.inr ⟨rfl, rfl, rfl, rfl, rfl, hkeep rfl rfl, ?_⟩)
      rcases hs with ⟨-, rfl⟩ | ⟨-, rfl⟩ <;> simp
  | _ => exact .inr (.inr ⟨rfl, rfl, rfl, rfl, rfl, hkeep rfl rfl, id⟩)

theorem received_mono (h : Act g c a c') (w : Effect) :
    c.received w <+: c'.received (w + a) := by
  rcases h.inbound_cases with ⟨-, -, rfl, -, hbuf, -⟩ | ⟨seg, payload, -, -, -, hret, -, hin, -⟩ |
    ⟨-, -, -, -, -, hkeep, -⟩
  · simp [TcpConnection.received, hbuf]
  · have hbuf : c'.recvBuffer = _ := congrArg TcpConnection.Inbound.recvBuffer hin
    have hpre := TcpConnection.receive_recvBuffer c seg payload
    simp only [TcpConnection.received, Effect.add_returned, hret, List.append_nil]
    rw [hbuf]
    exact (List.prefix_append_right_inj _).mpr hpre
  · rw [hkeep]

end Act

/-! ## The invariant of the receiving half -/

namespace TcpConnection

variable {b : UInt32} {S S' : Bytes} {c c' : TcpConnection} {w a : Effect} {g : Guard} {k : ℕ}

structure Unsynchronized (c : TcpConnection) (w : Effect) : Prop where
  state : c.state = .synSent ∨ c.state = .closed
  buffer : c.recvBuffer = []
  ooo : c.oooBuffer = ∅
  returned : w.returned = []
  fin : w.fin = false
  out : ∀ m ∈ w.out, hasFlag m.flags tcpAck = false
  queue : ∀ u ∈ c.retransmitQueue, hasFlag u.flags tcpAck = false

/-- After the peer's SYN: the received bytes are a prefix of `S`, all of it once
the FIN is consumed, and every acknowledgement sent names a place reached. -/
structure Receiving (b : UInt32) (S : Bytes) (c : TcpConnection) (w : Effect) : Prop where
  stream : c.received w <+: S
  next : c.rcvNxt = shift b ((c.received w).length + w.fin.toNat)
  pieces : w.fin = false → ∀ s d, c.oooBuffer.lookup s = some d →
    Piece b S (c.received w).length s d
  fin : w.fin = true → (c.received w).length = S.length ∧ c.state.finTaken
  acks : ∀ m ∈ w.out, hasFlag m.flags tcpAck →
    ∃ j ≤ (c.received w).length + w.fin.toNat, m.packet.hdr.ackNum = shift b j

def RcvInv (b : UInt32) (S : Bytes) (c : TcpConnection) (w : Effect) : Prop :=
  (w.syn = false → Unsynchronized c w) ∧
    (w.syn = true → c.state ≠ .synSent ∧ (c.irs + 1 = b → Receiving b S c w))

theorem Receiving.mono (h : Receiving b S c w) (hS : S <+: S')
    (hfin : w.fin = true → S'.length = S.length) : Receiving b S' c w where
  stream := h.stream.trans hS
  next := h.next
  pieces hf s d hs := (h.pieces hf s d hs).mono hS le_rfl
  fin hf := ⟨(h.fin hf).1.trans (hfin hf).symm, (h.fin hf).2⟩
  acks := h.acks

theorem acks_step (hact : Act g c a c')
    (hnext : c'.rcvNxt = shift b ((c'.received (w + a)).length + (w + a).fin.toNat))
    (hle : (c.received w).length + w.fin.toNat ≤
      (c'.received (w + a)).length + (w + a).fin.toNat)
    (h : ∀ m ∈ w.out, hasFlag m.flags tcpAck →
      ∃ j ≤ (c.received w).length + w.fin.toNat, m.packet.hdr.ackNum = shift b j) :
    ∀ m ∈ (w + a).out, hasFlag m.flags tcpAck →
      ∃ j ≤ (c'.received (w + a)).length + (w + a).fin.toNat,
        m.packet.hdr.ackNum = shift b j := by
  intro m hm hf
  rcases List.mem_append.mp hm with hm | hm
  · obtain ⟨j, hj, hack⟩ := h m hm hf
    exact ⟨j, hj.trans hle, hack⟩
  · exact ⟨_, le_rfl, (hact.ackNum_out m hm hf).trans hnext⟩

theorem Receiving.keep (h : Receiving b S c w) (hact : Act g c a c')
    (hfin : a.fin = false) (hnext : c'.rcvNxt = c.rcvNxt) (hooo : c'.oooBuffer = c.oooBuffer)
    (hrec : c'.received (w + a) = c.received w) : Receiving b S c' (w + a) := by
  have hf : (w + a).fin = w.fin := by simp [hfin]
  have hnext' : c'.rcvNxt = shift b ((c'.received (w + a)).length + (w + a).fin.toNat) := by
    rw [hnext, hrec, hf, h.next]
  refine ⟨hrec ▸ h.stream, hnext', ?_, ?_, acks_step hact hnext' (by rw [hrec, hf]) h.acks⟩
  · rw [hrec, hf, hooo]
    exact h.pieces
  · rw [hrec, hf]
    exact fun hw ↦ ⟨(h.fin hw).1, hact.finTaken_mono (h.fin hw).2⟩

/-- What the segments taken in are known to be: pieces of `S`, or stale with
respect to the `k` bytes received before the event. -/
def Guard.Pieces (g : Guard) (b : UInt32) (S : Bytes) (k : ℕ) : Prop :=
  ∀ c seg payload, g.data c seg payload →
    (payload ≠ [] → Piece b S k seg.seqNum payload) ∧ FinAt b S seg payload

theorem Receiving.receive (hS : S.length + 1 < 2 ^ 32) (h : Receiving b S c w)
    (hact : Act g c a c') {seg : TcpHeader} {payload : Bytes} (hrec : c.state.receives)
    (hp : payload ≠ [] → Piece b S (c.received w).length seg.seqNum payload)
    (hfin : FinAt b S seg payload) (hret : a.returned = [])
    (hafin : a.fin = (c.receiveDataAndMaybeFin seg payload).fin)
    (hin : c'.inbound = (c.receiveDataAndMaybeFin seg payload).conn.inbound)
    (hst : a.fin → c'.state.finTaken) : Receiving b S c' (w + a) := by
  have hw : w.fin = false := by
    by_contra hne
    have htaken := (h.fin (by simpa using hne)).2
    cases hs : c.state <;> simp [hs, TcpState.receives, TcpState.finTaken] at hrec htaken
  have hfol : Follows b S w.returned c :=
    ⟨h.stream, by rw [h.next, hw]; rfl, h.pieces hw⟩
  have hbuf : c'.recvBuffer = _ := congrArg Inbound.recvBuffer hin
  have hnxt : c'.rcvNxt = _ := congrArg Inbound.rcvNxt hin
  have hooo : c'.oooBuffer = _ := congrArg Inbound.oooBuffer hin
  have hmono := (hact.received_mono w).length_le
  have hrcv : c'.received (w + a) =
      w.returned ++ (c.receiveDataAndMaybeFin seg payload).conn.recvBuffer := by
    rw [received, Effect.add_returned, hret, List.append_nil, hbuf]
    rfl
  rcases hfol.receive hS hp hfin with ⟨hf, hfol'⟩ | ⟨hf, c₂, hfol₂, hlen, hconn⟩
  · have hfalse : (w + a).fin = false := by simp [hw, hafin, hf]
    have hnext : c'.rcvNxt = shift b ((c'.received (w + a)).length + (w + a).fin.toNat) := by
      rw [hnxt, hrcv, hfalse]
      exact hfol'.next
    refine ⟨hrcv ▸ hfol'.stream, hnext, fun _ ↦ ?_, by simp [hfalse], ?_⟩
    · rw [hooo, hrcv]
      exact hfol'.pieces
    · exact acks_step hact hnext (by simp [hw, hfalse, hmono]) h.acks
  · have htrue : (w + a).fin = true := by simp [hafin, hf]
    rw [hconn] at hrcv hnxt
    have hnext : c'.rcvNxt = shift b ((c'.received (w + a)).length + (w + a).fin.toNat) := by
      rw [hnxt, hrcv, htrue]
      change c₂.rcvNxt + 1 = _
      rw [hfol₂.next, add_one, shift_shift]
      rfl
    refine ⟨hrcv ▸ hfol₂.stream, hnext, by simp [htrue], fun _ ↦ ?_, ?_⟩
    · exact ⟨hrcv ▸ hlen, hst (hafin.trans hf)⟩
    · exact acks_step hact hnext (by simp [hw, htrue]; omega) h.acks

theorem Unsynchronized.step (h : Unsynchronized c w) (hact : Act g c a c')
    (hsyn : a.syn = false) : Unsynchronized c' (w + a) := by
  obtain ⟨hstate, hbuf, hooo, hret, hfin, hout, hqueue⟩ := h
  cases hact with
  | synAck => cases hsyn
  | take n => exact ⟨hstate, by simp [hbuf], hooo, by simp [hret, hbuf], by simp [hfin],
      by simpa using hout, hqueue⟩
  | @resend front rest now rto retries hq =>
      rw [hq] at hqueue
      refine ⟨hstate, hbuf, hooo, by simp [hret], by simp [hfin], fun m hm ↦ ?_, fun u hu ↦ ?_⟩
      · rcases List.mem_append.mp hm with hm | hm
        · exact hout m hm
        · rw [List.mem_singleton.mp hm]
          exact hqueue front (by simp)
      · rcases List.mem_cons.mp hu with rfl | hu
        · exact hqueue front (by simp)
        · exact hqueue u (List.mem_cons_of_mem _ hu)
  | abort =>
      exact ⟨.inr rfl, hbuf, hooo, by simp [hret], by simp [hfin], by simpa using hout, hqueue⟩
  | timers | accept | recvCap | sendCap =>
      exact ⟨hstate, hbuf, hooo, by simp [hret], by simp [hfin], by simpa using hout, hqueue⟩
  | _ =>
      -- the remaining actions need a state that follows the SYN
      rcases hstate with hs | hs <;>
        simp_all [TcpState.readsAck, TcpState.receives, TcpState.sends]

theorem RcvInv.step (hS : S.length + 1 < 2 ^ 32) (hg : Guard.Pieces g b S k)
    (h : RcvInv b S c w) (hk : k ≤ (c.received w).length) (hact : Act g c a c') :
    RcvInv b S c' (w + a) := by
  rcases hact.inbound_cases with ⟨hst, hst', rfl, hnxt, hbuf, hooo⟩ |
    ⟨seg, payload, hrec, hdata, hsyn, hret, hfin, hin, hst, hst'⟩ |
    ⟨hsyn, hfin, hirs, hnxt, hooo, hkeep, hst⟩
  · -- our SYN was answered, so the peer's had not been taken before
    have hw : w.syn = false := by
      by_contra hne
      exact (h.2 (by simpa using hne)).1 hst
    have hun := h.1 hw
    have hlen : c'.received (w + { syn := true }) = [] := by
      simp [received, hbuf, hun.buffer, hun.returned]
    have hf : (w + { syn := true } : Effect).fin = false := by simp [hun.fin]
    refine ⟨by simp, fun _ ↦ ⟨by simp [hst'], ?_⟩⟩
    rintro rfl
    refine ⟨by simp [hlen], by simp [hlen, hf, hnxt], fun _ s d hs ↦ ?_, by simp [hf], ?_⟩
    · rw [hooo, hun.ooo] at hs
      cases hs
    · intro m hm hflag
      have hnot := hun.out m (by simpa using hm)
      rw [hnot] at hflag
      cases hflag
  · have hw : w.syn = true := by
      by_contra hne
      rcases (h.1 (by simpa using hne)).state with hs | hs <;>
        simp [hs, TcpState.receives] at hrec
    refine ⟨by simp [hw], fun _ ↦ ⟨hst', fun hb ↦ ?_⟩⟩
    obtain ⟨nxt, buf, ooo, hconn⟩ := receive_eq c seg payload
    have hirs : c'.irs = c.irs := by
      have hirs : c'.irs = _ := congrArg Inbound.irs hin
      rw [hirs, hconn]
      rfl
    obtain ⟨hp, hfinAt⟩ := hg c seg payload hdata
    exact ((h.2 hw).2 (hirs ▸ hb)).receive hS hact hrec
      (fun hne ↦ (hp hne).mono (List.prefix_refl S) hk) hfinAt hret hfin hin hst
  · have hw : (w + a).syn = w.syn := by simp [hsyn]
    rw [RcvInv, hw, hirs]
    exact ⟨fun hf ↦ (h.1 hf).step hact hsyn, fun ht ↦ ⟨fun hs ↦ (h.2 ht).1 (hst hs),
      fun hb ↦ ((h.2 ht).2 hb).keep hact hfin hnxt hooo (hkeep w)⟩⟩

/-- Whatever the peer sends, `rcv_nxt` counts what was taken in since its SYN. -/
def RcvCount (c : TcpConnection) (w : Effect) : Prop :=
  (w.syn = false → c.Unsynchronized w) ∧
    (w.syn = true → c.state ≠ .synSent ∧ (w.fin = true → c.state.finTaken) ∧
      c.rcvNxt = shift c.irs (1 + ((c.received w).length + w.fin.toNat)))

theorem RcvCount.step (h : RcvCount c w) (hact : Act g c a c') : RcvCount c' (w + a) := by
  rcases hact.inbound_cases with ⟨hst, hst', rfl, hnxt, hbuf, hooo⟩ |
    ⟨seg, payload, hrec, -, hsyn, hret, hfin, hin, hst, hst'⟩ |
    ⟨hsyn, hfin, hirs, hnxt, -, hkeep, hst⟩
  · have hw : w.syn = false := by
      by_contra hne
      exact (h.2 (by simpa using hne)).1 hst
    have hun := h.1 hw
    refine ⟨by simp, fun _ ↦ ⟨by simp [hst'], by simp [hun.fin], ?_⟩⟩
    simp [received, hbuf, hun.buffer, hun.returned, hun.fin, hnxt, add_one]
  · have hw : w.syn = true := by
      by_contra hne
      rcases (h.1 (by simpa using hne)).state with hs | hs <;>
        simp [hs, TcpState.receives] at hrec
    obtain ⟨-, hopen, hcount⟩ := h.2 hw
    have hwfin : w.fin = false := by
      by_contra hne
      have := hopen (by simpa using hne)
      cases hs : c.state <;> simp_all [TcpState.receives, TcpState.finTaken]
    obtain ⟨nxt, buf, ooo, hconn⟩ := receive_eq c seg payload
    obtain ⟨bytes, hbytes, hadv⟩ := receive_appends c seg payload
    have hirs : c'.irs = c.irs := by
      have hirs : c'.irs = _ := congrArg Inbound.irs hin
      rw [hirs, hconn]
      rfl
    have hnxt : c'.rcvNxt = _ := congrArg Inbound.rcvNxt hin
    have hbuf : c'.recvBuffer = _ := congrArg Inbound.recvBuffer hin
    refine ⟨by simp [hw], fun _ ↦ ⟨hst', fun hf ↦ hst (by simpa [hwfin] using hf), ?_⟩⟩
    rw [hnxt, hirs]
    change (c.receiveDataAndMaybeFin seg payload).conn.rcvNxt = _
    rw [hadv, hcount, ← hfin, shift_shift]
    congr 1
    change c'.recvBuffer = (c.receiveDataAndMaybeFin seg payload).conn.recvBuffer at hbuf
    simp only [received, hbuf, hbytes, hret, hwfin, Effect.add_returned, Effect.add_fin,
      List.length_append, List.append_nil, Bool.false_or, Bool.toNat_false]
    omega
  · have hw : (w + a).syn = w.syn := by simp [hsyn]
    have hf : (w + a).fin = w.fin := by simp [hfin]
    rw [RcvCount, hw, hf, hirs, hnxt, hkeep]
    refine ⟨fun hno ↦ (h.1 hno).step hact hsyn, fun hyes ↦ ?_⟩
    obtain ⟨hne, hopen, hcount⟩ := h.2 hyes
    exact ⟨fun hs ↦ hne (hst hs), fun hfin ↦ hact.finTaken_mono (hopen hfin), hcount⟩

end TcpConnection

namespace Track

open TcpConnection

variable {b : UInt32} {S : Bytes} {t : Track} {g : Guard}

theorem unsynchronized_active (now : Instant) (iss : UInt32) (key : ConnectionKey) :
    (active now iss key).conn.Unsynchronized (active now iss key).hist := by
  refine ⟨.inl rfl, rfl, rfl, rfl, rfl, fun m hm ↦ ?_, fun u hu ↦ ?_⟩
  · rw [List.mem_singleton.mp hm]
    exact (by decide : hasFlag tcpSyn tcpAck = false)
  · rw [List.mem_singleton.mp hu]
    exact (by decide : hasFlag tcpSyn tcpAck = false)

theorem Opened.rcvInv (h : t.Opened) : RcvInv b S t.conn t.hist := by
  rcases h with ⟨now, iss, key, rfl⟩ | ⟨now, iss, key, seg, rfl⟩
  · exact ⟨fun _ ↦ unsynchronized_active now iss key, nofun⟩
  · refine ⟨nofun, fun _ ↦ ⟨nofun, ?_⟩⟩
    rintro rfl
    refine ⟨List.nil_prefix, (shift_zero _).symm, fun _ s d hs ↦ (nomatch hs), nofun,
      fun m hm _ ↦ ⟨0, Nat.zero_le _, ?_⟩⟩
    rw [List.mem_singleton.mp hm, shift_zero]
    rfl

theorem Reachable.rcvCount (h : t.Reachable g) : t.conn.RcvCount t.hist := by
  refine h.invariant ?_ fun _ _ _ _ hinv hact ↦ hinv.step hact
  rintro t (⟨now, iss, key, rfl⟩ | ⟨now, iss, key, seg, rfl⟩)
  · exact ⟨fun _ ↦ unsynchronized_active now iss key, fun h ↦ absurd h (by simp [active])⟩
  · exact ⟨fun h ↦ absurd h (by simp [passive]), fun _ ↦
      ⟨by simp [passive, TcpConnection.passiveOpen, TcpConnection.queueAndSend],
        fun h ↦ absurd h (by simp [passive]), rfl⟩⟩

theorem rcvInv_step (hS : S.length + 1 < 2 ^ 32) (hg : Guard.Pieces g b S t.received.length)
    {e : ConnEvent} (he : g.Admits t.conn e) (h : RcvInv b S t.conn t.hist) :
    RcvInv b S (t.step e).conn (t.step e).hist :=
  (step_invariant (P := fun c w ↦ t.received.length ≤ (c.received w).length ∧ RcvInv b S c w)
    (fun _ _ w _ h hact ↦ ⟨h.1.trans (hact.received_mono w).length_le,
      h.2.step hS hg h.1 hact⟩) he ⟨le_rfl, h⟩).2

/-- A peer that sends the stream `S` after a SYN numbered `irs`: whatever carries
data or FIN is a piece of `S` at its place, cut anywhere, and FIN ends `S`. -/
def consistentPeer (irs : UInt32) (S : Bytes) : Guard where
  data _ seg payload := payload ≠ [] ∨ hasFlag seg.flags tcpFin →
    ∃ p, seg.seqNum = irs + 1 + UInt32.ofNat p ∧ p + payload.length ≤ S.length ∧
      payload = (S.drop p).take payload.length ∧
      (hasFlag seg.flags tcpFin → p + payload.length = S.length)

theorem consistentPeer_pieces (irs : UInt32) (S : Bytes) (k : ℕ) :
    Guard.Pieces (consistentPeer irs S) (irs + 1) S k := by
  intro c seg payload h
  refine ⟨fun hne ↦ ?_, fun hf ↦ ?_⟩
  · obtain ⟨p, hseq, hp, hpay, -⟩ := h (.inl hne)
    refine .inl ⟨p, hseq, by omega, ?_⟩
    rw [hpay]
    exact List.take_prefix _ _
  · obtain ⟨p, hseq, -, -, hend⟩ := h (.inr hf)
    exact ⟨p, hseq, hend hf⟩

/-- Against any consistent peer the received bytes are a prefix of the stream,
`rcv_nxt` stands right behind them, and after the FIN they are the whole stream. -/
theorem received_of_consistentPeer {irs : UInt32} (hS : S.length < 2 ^ 32 - 2)
    (h : t.Reachable (consistentPeer irs S)) (hsyn : t.hist.syn = true)
    (hirs : t.conn.irs = irs) :
    ∃ k ≤ S.length, t.received = S.take k ∧
      (t.hist.fin = false → t.conn.rcvNxt = irs + 1 + UInt32.ofNat k) ∧
      (t.hist.fin = true →
        k = S.length ∧ t.conn.rcvNxt = irs + 2 + UInt32.ofNat S.length) := by
  have hinv : RcvInv (irs + 1) S t.conn t.hist :=
    Run.Reaches.invariant (P := fun t ↦ RcvInv (irs + 1) S t.conn t.hist)
      (fun _ hopen ↦ hopen.rcvInv)
      (fun t _ _ he ↦ rcvInv_step (by omega) (consistentPeer_pieces irs S _) he) h
  have hrec := (hinv.2 hsyn).2 (by rw [hirs])
  refine ⟨t.received.length, hrec.stream.length_le, List.prefix_iff_eq_take.mp hrec.stream,
    fun hf ↦ ?_, fun hf ↦ ⟨(hrec.fin hf).1, ?_⟩⟩
  · rw [hrec.next, hf]
    rfl
  · rw [hrec.next, hf, (hrec.fin hf).1, add_one, shift_shift]
    change shift irs (1 + (S.length + 1)) = shift (shift irs 2) S.length
    rw [shift_shift]
    congr 1
    omega

/-- A stream whose numbers wrap, its end arriving first. -/
theorem received_of_consistentPeer_wrapping :
    ∃ t : Track, t.received = [7, 8, 9] ∧ t.hist.fin = true ∧
      ∃ k ≤ 3, t.received = List.take k [7, 8, 9] ∧
        (t.hist.fin = false → t.conn.rcvNxt = 4294967293 + 1 + UInt32.ofNat k) ∧
        (t.hist.fin = true → k = 3 ∧ t.conn.rcvNxt = 4294967293 + 2 + UInt32.ofNat 3) := by
  let key : ConnectionKey := ⟨1, 80, 2, 49152⟩
  let syn : TcpHeader := ⟨49152, 80, 4294967293, 0, 80, tcpSyn, 1000, 0, 0⟩
  let ack : TcpHeader := ⟨49152, 80, 4294967295, 1, 80, tcpAck, 1000, 0, 0⟩
  let t₀ : Track := .passive 0 0 key syn
  let t₁ := t₀.step (.segment 0 ack [8])
  let t₂ := t₁.step (.segment 0 { ack with seqNum := 4294967294 } [7])
  let t₃ := t₂.step (.segment 0 { ack with seqNum := 0, flags := tcpAck ||| tcpFin } [9])
  have h₀ : t₀.Reachable (consistentPeer 4294967293 [7, 8, 9]) :=
    .start (.inr ⟨0, 0, key, syn, rfl⟩)
  have h₁ : t₁.Reachable (consistentPeer 4294967293 [7, 8, 9]) :=
    .tail _ h₀ ⟨fun _ ↦ trivial, fun _ _ _ _ ↦ ⟨1, by decide⟩⟩
  have h₂ : t₂.Reachable (consistentPeer 4294967293 [7, 8, 9]) :=
    .tail _ h₁ ⟨fun _ ↦ trivial, fun _ _ _ _ ↦ ⟨0, by decide⟩⟩
  have h₃ : t₃.Reachable (consistentPeer 4294967293 [7, 8, 9]) :=
    .tail _ h₂ ⟨fun _ ↦ trivial, fun _ _ _ _ ↦ ⟨2, by decide⟩⟩
  exact ⟨t₃, by decide, by decide,
    received_of_consistentPeer (by decide) h₃ (by decide) (by decide)⟩

end Track

end MiniTcp
