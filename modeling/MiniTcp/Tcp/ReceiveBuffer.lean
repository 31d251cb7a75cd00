import MiniTcp.Tcp.Track

/-!
# The memory of the receiving half

`buffered_bytes` counts `recv_buffer` and everything in `ooo_buffer`.  Out-of-order
data is only buffered within `recv_buffer_cap`, and the splice loop moves bytes
from one buffer to the other, but in-order data is appended without a look at the
cap.  So the cap bounds the memory exactly as long as the peer keeps in-order data
within the free room.
-/

namespace MiniTcp

namespace TcpConnection

variable {c c' : TcpConnection} {seg : TcpHeader} {payload : Bytes}

theorem bufferedBytes_congr (h : c'.inbound = c.inbound) : c'.bufferedBytes = c.bufferedBytes := by
  have hbuf : c'.recvBuffer = c.recvBuffer := congrArg Inbound.recvBuffer h
  have hooo : c'.oooBuffer = c.oooBuffer := congrArg Inbound.oooBuffer h
  rw [bufferedBytes, bufferedBytes, hbuf, hooo]

theorem bufferedBytes_appendInOrder (payload : Bytes) (c : TcpConnection) :
    (c.appendInOrder payload).bufferedBytes = c.bufferedBytes + payload.length := by
  simp only [bufferedBytes, appendInOrder, List.length_append]
  omega

theorem bufferedBytes_splice (fuel : ℕ) (c : TcpConnection) :
    (splice fuel c).1.bufferedBytes = c.bufferedBytes := by
  induction fuel generalizing c with
  | zero => rfl
  | succ fuel ih =>
      rw [splice]
      cases hlook : c.oooBuffer.lookup c.rcvNxt with
      | none => rfl
      | some d =>
          have hweight := AssocMap.weight_erase List.length hlook
          refine (ih _).trans ?_
          rw [bufferedBytes_appendInOrder]
          simp only [bufferedBytes]
          omega

theorem bufferedBytes_receive_of_eq (h : seg.seqNum = c.rcvNxt) :
    (c.receiveDataAndMaybeFin seg payload).conn.bufferedBytes =
      c.bufferedBytes + payload.length := by
  have hspl := bufferedBytes_splice c.oooBuffer.entries.length (c.appendInOrder payload)
  rw [bufferedBytes_appendInOrder] at hspl
  rw [(receive_of_eq payload h).1, ← hspl]
  dsimp only
  split_ifs <;> rfl

theorem bufferedBytes_receive_of_ne (h : seg.seqNum ≠ c.rcvNxt)
    (hcap : c.bufferedBytes ≤ c.recvBufferCap) :
    (c.receiveDataAndMaybeFin seg payload).conn.bufferedBytes ≤ c.recvBufferCap := by
  by_cases hgt : seg.seqNum > c.rcvNxt
  · rw [(receive_of_gt payload h hgt).1]
    split_ifs with hroom
    · simp only [Bool.and_eq_true, decide_eq_true_eq] at hroom
      have herase := AssocMap.weight_erase_le List.length c.oooBuffer seg.seqNum
      have hlen := hroom.2
      simp only [bufferedBytes, AssocMap.weight_insert] at hlen ⊢
      omega
    · exact hcap
  · rw [(receive_of_lt payload h hgt).1]
    exact hcap

structure Idle (c : TcpConnection) : Prop where
  state : c.state = .established
  ooo : c.oooBuffer.entries.length = 0
  pending : c.sendPending = []
  close : c.pendingClose = false

/-- An idle connection appends an in-order segment without FIN, whatever its
length, and stays idle. -/
theorem Idle.processSegment {now : Instant} (h : c.Idle)
    (hrst : hasFlag seg.flags tcpRst = false) (hseq : seg.seqNum = c.rcvNxt)
    (hfin : hasFlag seg.flags tcpFin = false)
    (hc' : c' = (c.processSegment now seg payload).conn) :
    c'.Idle ∧ c'.rcvNxt = c.rcvNxt + UInt32.ofNat payload.length ∧
      c'.bufferedBytes = c.bufferedBytes + payload.length ∧
      c'.recvBufferCap = c.recvBufferCap := by
  obtain ⟨hst, hooo, hpend, hclose⟩ := h
  obtain ⟨una, queue, wnd, deadline, rto, hack⟩ := processAck_eq c seg
  have hseq' : seg.seqNum = (c.processAck seg).rcvNxt := by rw [hack, hseq]
  obtain ⟨hconn, hf⟩ := receive_of_eq payload hseq'
  have hflush : ((c.processAck seg).appendInOrder payload).flushSend now =
      ((c.processAck seg).appendInOrder payload, []) := by
    simp [hack, appendInOrder, flushSend, armProbe, sendDeferredFin, flushLoop, hst, hpend, hclose]
  rw [hfin] at hconn hf
  have hconn' : ((c.processAck seg).receiveDataAndMaybeFin seg payload).conn =
      (c.processAck seg).appendInOrder payload := by
    rw [hconn, hack]
    simp [hooo, splice]
  have hresult : c' = (c.processAck seg).appendInOrder payload := by
    rw [hc']
    simp [TcpConnection.processSegment, hrst, hst, establishedSegment, hf, hconn', hflush]
  have hbytes := bufferedBytes_congr (processAck_inbound c seg)
  rw [hresult, bufferedBytes_appendInOrder, hbytes, hack]
  exact ⟨⟨hst, hooo, hpend, hclose⟩, rfl, rfl, rfl⟩

end TcpConnection

namespace Act

variable {g : Guard} {c c' : TcpConnection} {a : Effect}

theorem bufferedBytes_le (hcap : ∀ c cap, ¬ g.recvCap c cap)
    (hdata : ∀ c seg payload, g.data c seg payload → seg.seqNum = c.rcvNxt →
      c.bufferedBytes + payload.length ≤ c.recvBufferCap)
    (h : Act g c a c') (hle : c.bufferedBytes ≤ c.recvBufferCap) :
    c'.bufferedBytes ≤ c'.recvBufferCap := by
  cases h with
  | @receive seg payload s deadline hst hg =>
      obtain ⟨nxt, buf, ooo, hconn⟩ := TcpConnection.receive_eq c seg payload
      have hkeep : (c.receiveDataAndMaybeFin seg payload).conn.recvBufferCap = c.recvBufferCap := by
        rw [hconn]
      change (c.receiveDataAndMaybeFin seg payload).conn.bufferedBytes ≤
        (c.receiveDataAndMaybeFin seg payload).conn.recvBufferCap
      rw [hkeep]
      by_cases heq : seg.seqNum = c.rcvNxt
      · rw [TcpConnection.bufferedBytes_receive_of_eq heq]
        exact hdata c seg payload hg heq
      · exact TcpConnection.bufferedBytes_receive_of_ne heq hle
  | @ack seg =>
      have hin := TcpConnection.processAck_inbound c seg
      have hkeep : (c.processAck seg).recvBufferCap = c.recvBufferCap :=
        congrArg TcpConnection.Inbound.recvBufferCap hin
      rw [hkeep, TcpConnection.bufferedBytes_congr hin]
      exact hle
  | take n =>
      refine le_trans ?_ hle
      simp [TcpConnection.bufferedBytes]
  | recvCap cap hg => exact absurd hg (hcap c cap)
  | _ => exact hle

end Act

namespace Track

def fixedRecvCap : Guard where
  recvCap _ _ := False

/-- In addition, in-order data always fits into the free room. -/
def inOrderFits : Guard where
  data c seg payload :=
    seg.seqNum = c.rcvNxt → c.bufferedBytes + payload.length ≤ c.recvBufferCap
  recvCap _ _ := False

/-- As long as in-order data fits into the free room, the receive buffers stay
within the cap. -/
theorem bufferedBytes_le_recvBufferCap {t : Track} (h : t.Reachable inOrderFits) :
    t.conn.bufferedBytes ≤ t.conn.recvBufferCap :=
  h.invariant (P := fun c _ ↦ c.bufferedBytes ≤ c.recvBufferCap)
    (by rintro t (⟨now, iss, key, rfl⟩ | ⟨now, iss, key, seg, rfl⟩) <;> exact Nat.zero_le _)
    (fun _ _ _ _ hle hact ↦ hact.bufferedBytes_le (fun _ _ ↦ id) (fun _ _ _ hd ↦ hd) hle)

theorem bufferedBytes_le_recvBufferCap_three :
    ∃ t : Track, t.conn.bufferedBytes = 3 ∧ t.conn.bufferedBytes ≤ t.conn.recvBufferCap := by
  let syn : TcpHeader := ⟨49152, 80, 1000, 0, 80, tcpSyn, 1000, 0, 0⟩
  let ack : TcpHeader := ⟨49152, 80, 1001, 8, 80, tcpAck, 1000, 0, 0⟩
  let t₀ : Track := .passive 0 7 ⟨1, 80, 2, 49152⟩ syn
  have h₀ : t₀.Reachable inOrderFits := .start (.inr ⟨0, 7, ⟨1, 80, 2, 49152⟩, syn, rfl⟩)
  have h₁ : (t₀.step (.segment 0 ack [1, 2, 3])).Reachable inOrderFits := by
    refine .tail _ h₀ ⟨fun _ ↦ trivial, fun _ c' hin _ ↦ ?_⟩
    have hcap : c'.recvBufferCap = t₀.conn.recvBufferCap :=
      congrArg TcpConnection.Inbound.recvBufferCap hin
    rw [TcpConnection.bufferedBytes_congr hin, hcap]
    decide
  exact ⟨_, by decide, bufferedBytes_le_recvBufferCap h₁⟩

/-- Two in-order segments of 40000 bytes exceed the default cap of 65536. -/
theorem exists_bufferedBytes_gt_recvBufferCap :
    ∃ t : Track, t.Reachable fixedRecvCap ∧ t.conn.recvBufferCap < t.conn.bufferedBytes := by
  let syn : TcpHeader := ⟨49152, 80, 1000, 0, 80, tcpSyn, 1000, 0, 0⟩
  let ack : TcpHeader := ⟨49152, 80, 1001, 8, 80, tcpAck, 1000, 0, 0⟩
  obtain ⟨burst, hlen⟩ : ∃ burst : Bytes, burst.length = 40000 :=
    ⟨List.replicate 40000 0, List.length_replicate⟩
  let t₀ : Track := .passive 0 7 ⟨1, 80, 2, 49152⟩ syn
  let t₁ := t₀.step (.segment 0 ack [])
  let t₂ := t₁.step (.segment 0 ack burst)
  let t₃ := t₂.step (.segment 0 { ack with seqNum := 41001 } burst)
  have hok (t : Track) (seg : TcpHeader) (payload : Bytes) :
      fixedRecvCap.Admits t.conn (.segment 0 seg payload) :=
    ⟨fun _ ↦ trivial, fun _ _ _ ↦ trivial⟩
  have h₀ : t₀.Reachable fixedRecvCap := .start (.inr ⟨0, 7, ⟨1, 80, 2, 49152⟩, syn, rfl⟩)
  have h₃ : t₃.Reachable fixedRecvCap :=
    .tail _ (.tail _ (.tail _ h₀ (hok _ _ _)) (hok _ _ _)) (hok _ _ _)
  have hidle : t₁.conn.Idle := ⟨by decide, by decide, by decide, by decide⟩
  have hnxt : t₁.conn.rcvNxt = 1001 := by decide
  have hbuf : t₁.conn.bufferedBytes = 0 := by decide
  have hcap : t₁.conn.recvBufferCap = 65536 := by decide
  obtain ⟨hidle₂, hnxt₂, hbuf₂, hcap₂⟩ :=
    hidle.processSegment (by decide) hnxt.symm (by decide) (rfl : t₂.conn = _)
  rw [hlen, hnxt] at hnxt₂
  obtain ⟨-, -, hbuf₃, hcap₃⟩ :=
    hidle₂.processSegment (by decide) (hnxt₂.trans (by decide)).symm (by decide)
      (rfl : t₃.conn = _)
  exact ⟨t₃, h₃, by omega⟩

end Track

end MiniTcp
