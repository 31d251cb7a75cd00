import MiniTcp.Tcp.System

/-!
# The exchange of segments comes to rest

Two hosts, no calls of the application, no ticks: the only thing that happens is that
a packet on its way arrives and is gone.  Every packet gets a price, pending bytes and
buffered segments are priced as well, and what a host sends in answer is paid for by
what arrived.  The one answer that is not paid for is the ACK to an empty segment
ahead of `rcv_nxt`.  Where such segments reach only one of the two hosts the exchange
is finite; where they reach both, the two hosts can answer each other forever.
-/

namespace MiniTcp

/-- What a segment can still cause; an empty one costs `p`. -/
def segmentPrice (p : ℕ) (flags : UInt8) (len : ℕ) : ℕ :=
  if hasFlag flags tcpSyn ∧ ¬ hasFlag flags tcpAck then 7
  else if hasFlag flags tcpRst then 1
  else if seqLen flags len = 0 then p
  else 6

def Emission.price (p : ℕ) (m : Emission) : ℕ := segmentPrice p m.flags m.data.length

def price (p : ℕ) (out : List Emission) : ℕ := (out.map (Emission.price p)).sum

@[simp] theorem price_nil (p : ℕ) : price p [] = 0 := rfl

@[simp] theorem price_singleton (p : ℕ) (m : Emission) : price p [m] = m.price p := by
  simp [price]

@[simp] theorem price_append (p : ℕ) (l l' : List Emission) :
    price p (l ++ l') = price p l + price p l' := by
  simp [price]

theorem price_erase {p : ℕ} {m : Emission} {l : List Emission} (h : m ∈ l) :
    price p l = m.price p + price p (l.erase m) := by
  have hperm := (List.perm_cons_erase h).map (Emission.price p)
  rw [price, hperm.sum_nat, List.map_cons, List.sum_cons, price]

namespace TcpConnection

/-- What a connection can still send of its own accord or splice in. -/
def potential (c : TcpConnection) : ℕ :=
  6 * c.sendPending.length + 6 * c.pendingClose.toNat + 2 * c.oooBuffer.weight fun _ ↦ 1

/-- An empty segment ahead of `rcv_nxt`, in a state that answers it. -/
def AheadEmpty (c : TcpConnection) (seg : TcpHeader) (data : Bytes) : Prop :=
  c.state.receives ∧ seqLen seg.flags data.length = 0 ∧ c.rcvNxt < seg.seqNum

variable {c : TcpConnection} {seg : TcpHeader} {data : Bytes} {now : Instant} {p q : ℕ}

/-! ## What is sent is paid for -/

@[simp] theorem price_sendAckOnly (c : TcpConnection) : c.sendAckOnly.price p = p := by
  have hflags : hasFlag tcpAck tcpRst = false ∧ hasFlag tcpAck tcpSyn = false ∧
      seqLen tcpAck 0 = 0 := by decide
  simp [sendAckOnly, Emission.price, Emission.flags, Emission.data, sendSegment, segmentPrice,
    hflags]

theorem price_sendSegment {o : Origin} {flags : UInt8} {seq : UInt32}
    (hrst : hasFlag flags tcpRst = false) (hack : hasFlag flags tcpAck = true)
    (hlen : seqLen flags data.length ≠ 0) :
    Emission.price p ⟨o, c.sendSegment flags seq data⟩ = 6 := by
  simp [Emission.price, Emission.flags, Emission.data, sendSegment, segmentPrice, hrst, hack, hlen]

theorem flushLoop_price (now : Instant) (fuel : ℕ) (c : TcpConnection) :
    price p (flushLoop now fuel c).2 + (flushLoop now fuel c).1.potential ≤ c.potential := by
  induction fuel generalizing c with
  | zero => simp [flushLoop]
  | succ fuel ih =>
      rw [flushLoop]
      split_ifs with hzero
      · simp
      · have hle := (chunkLen_le c).2
        have hchunk : price p (c.sendChunk now c.chunkLen).2 = 6 := by
          change price p [⟨.queued, c.sendSegment (tcpAck ||| tcpPsh) c.sndNxt
            (c.sendPending.take c.chunkLen)⟩] = 6
          rw [price_singleton, price_sendSegment (by decide) (by decide)]
          simp only [seqLen, List.length_take]
          omega
        have hlen : (c.sendChunk now c.chunkLen).1.potential + 6 * c.chunkLen = c.potential := by
          simp only [potential, length_sendChunk]
          change 6 * (c.sendPending.length - c.chunkLen) + 6 * c.pendingClose.toNat +
            2 * c.oooBuffer.weight (fun _ ↦ 1) + 6 * c.chunkLen = _
          omega
        have hrest := ih (c.sendChunk now c.chunkLen).1
        simp only [price_append, hchunk]
        omega

theorem sendDeferredFin_price (now : Instant) (c : TcpConnection) :
    price p (c.sendDeferredFin now).2 + (c.sendDeferredFin now).1.potential ≤ c.potential := by
  have hfin : price p (c.queueAndSend now (tcpFin ||| tcpAck) []).2 = 6 := by
    change price p [⟨.queued, c.sendSegment (tcpFin ||| tcpAck) c.sndNxt []⟩] = 6
    rw [price_singleton, price_sendSegment (by decide) (by decide) (by decide)]
  unfold sendDeferredFin
  split_ifs with hclose
  · have hpot : c.potential = 6 * c.sendPending.length + 6 +
        2 * c.oooBuffer.weight (fun _ ↦ 1) := by
      simp [potential, hclose.1]
    have hsent (st : TcpState) : price p (c.queueAndSend now (tcpFin ||| tcpAck) []).2 +
        potential { (c.queueAndSend now (tcpFin ||| tcpAck) []).1 with
          state := st, pendingClose := false } ≤ c.potential := by
      rw [hfin, hpot]
      change 6 + (6 * c.sendPending.length + 0 + 2 * c.oooBuffer.weight fun _ ↦ 1) ≤ _
      omega
    split
    · exact hsent .finWait1
    · exact hsent .lastAck
    · rw [hpot]
      change 0 + (6 * c.sendPending.length + 0 + 2 * c.oooBuffer.weight fun _ ↦ 1) ≤ _
      omega
  · simp

theorem flushSend_price (now : Instant) (c : TcpConnection) :
    price p (c.flushSend now).2 + (c.flushSend now).1.potential ≤ c.potential := by
  cases hst : c.state.sends with
  | false => simp [flushSend_of_not_sends now hst]
  | true =>
      obtain ⟨deadline, harm, -⟩ := armProbe_eq now c
      have harmed : (c.armProbe now).potential = c.potential := by
        rw [harm]
        rfl
      have hloop := flushLoop_price (p := p) now c.sendPending.length (c.armProbe now)
      have hfin := sendDeferredFin_price (p := p) now
        (flushLoop now c.sendPending.length (c.armProbe now)).1
      rw [flushSend_of_sends now hst]
      simp only [price_append]
      omega

theorem processAck_potential (c : TcpConnection) (seg : TcpHeader) :
    (c.processAck seg).potential = c.potential := by
  obtain ⟨una, queue, wnd, deadline, rto, h⟩ := processAck_eq c seg
  rw [h]
  rfl

/-! ## What a segment brings -/

theorem splice_potential (fuel : ℕ) (c : TcpConnection) :
    (splice fuel c).1.potential + 2 * (splice fuel c).2.toNat ≤ c.potential := by
  induction fuel generalizing c with
  | zero => simp [splice]
  | succ fuel ih =>
      rw [splice]
      cases hlook : c.oooBuffer.lookup c.rcvNxt with
      | none => simp
      | some d =>
          have herase := AssocMap.weight_erase (fun _ ↦ 1) hlook
          have hrest := ih (appendInOrder d
            { c with oooBuffer := AList.erase c.rcvNxt c.oooBuffer })
          have hless : (appendInOrder d
              { c with oooBuffer := AList.erase c.rcvNxt c.oooBuffer }).potential + 2 =
              c.potential := by
            simp only [potential, appendInOrder]
            omega
          simp only [Bool.toNat_true]
          omega

theorem ackIf_price (c : TcpConnection) (b : Bool) :
    price p (if b then [c.sendAckOnly] else []) = if b then p else 0 := by
  cases b <;> simp

/-- Taking in a segment: `p` is the price of the empty segment that answers and `q` that
of an empty segment that arrives. -/
theorem receive_price (c : TcpConnection) (seg : TcpHeader) (data : Bytes)
    (hahead : seqLen seg.flags data.length = 0 → c.rcvNxt < seg.seqNum → p < q)
    (hp : p ≤ 3) (hq : 2 ≤ q) :
    price p (c.receiveDataAndMaybeFin seg data).out +
        (c.receiveDataAndMaybeFin seg data).conn.potential <
      (if seqLen seg.flags data.length = 0 then q else 6) + c.potential := by
  have hempty (h : seqLen seg.flags data.length = 0) :
      data = [] ∧ hasFlag seg.flags tcpFin = false := by
    simp only [seqLen, Nat.add_eq_zero_iff, List.length_eq_zero_iff, Bool.toNat_eq_zero] at h
    exact ⟨h.1.1, h.2⟩
  unfold receiveDataAndMaybeFin
  by_cases heq : seg.seqNum = c.rcvNxt
  · rw [if_pos heq]
    have happ : (if data.isEmpty then c else c.appendInOrder data).potential = c.potential := by
      split_ifs <;> rfl
    generalize (if data.isEmpty then c else c.appendInOrder data) = c₁ at happ ⊢
    have hspl := splice_potential c₁.oooBuffer.entries.length c₁
    dsimp only
    generalize splice c₁.oooBuffer.entries.length c₁ = r at hspl ⊢
    have hfin : (if hasFlag seg.flags tcpFin then { r.1 with rcvNxt := r.1.rcvNxt + 1 }
        else r.1).potential = r.1.potential := by
      split_ifs <;> rfl
    rw [ackIf_price, hfin]
    by_cases hlen : seqLen seg.flags data.length = 0
    · obtain ⟨rfl, hnofin⟩ := hempty hlen
      rw [if_pos hlen, hnofin]
      cases hspliced : r.2 <;> simp [hspliced] at hspl ⊢ <;> omega
    · rw [if_neg hlen]
      split_ifs <;> omega
  · rw [if_neg heq]
    by_cases hgt : seg.seqNum > c.rcvNxt
    · rw [if_pos hgt]
      dsimp only
      rw [price_singleton, price_sendAckOnly]
      by_cases hlen : seqLen seg.flags data.length = 0
      · have hlt := hahead hlen hgt
        obtain ⟨rfl, -⟩ := hempty hlen
        rw [if_pos hlen]
        simpa using hlt
      · have hins : (if !data.isEmpty && c.bufferedBytes + data.length ≤ c.recvBufferCap then
            { c with oooBuffer := AList.insert seg.seqNum data c.oooBuffer }
            else c).potential ≤ c.potential + 2 := by
          have hone := AssocMap.weight_insert (fun _ ↦ 1) c.oooBuffer seg.seqNum data
          have hle := AssocMap.weight_erase_le (fun _ ↦ 1) c.oooBuffer seg.seqNum
          split_ifs
          · simp only [potential]
            omega
          · omega
        rw [if_neg hlen]
        omega
    · rw [if_neg hgt]
      dsimp only
      rw [ackIf_price]
      by_cases hlen : seqLen seg.flags data.length = 0
      · obtain ⟨rfl, hnofin⟩ := hempty hlen
        rw [if_pos hlen, hnofin]
        simp
        omega
      · rw [if_neg hlen]
        split_ifs <;> omega

theorem receive_processAck_price (hahead : c.AheadEmpty seg data → p < q)
    (hst : c.state.receives) (hp : p ≤ 3) (hq : 2 ≤ q) :
    price p ((c.processAck seg).receiveDataAndMaybeFin seg data).out +
        ((c.processAck seg).receiveDataAndMaybeFin seg data).conn.potential <
      (if seqLen seg.flags data.length = 0 then q else 6) + c.potential := by
  have hnxt : (c.processAck seg).rcvNxt = c.rcvNxt :=
    congrArg Inbound.rcvNxt (processAck_inbound c seg)
  rw [← processAck_potential c seg]
  refine receive_price _ seg data (fun hlen hlt ↦ hahead ⟨hst, hlen, ?_⟩) hp hq
  rwa [hnxt] at hlt

theorem potential_enterCloseWait (r : Received) :
    (if r.fin then { r.conn with state := .closeWait } else r.conn).potential =
      r.conn.potential := by
  split_ifs <;> rfl

theorem le_segmentPrice {flags : UInt8} {len : ℕ} (hrst : ¬ hasFlag flags tcpRst) :
    (if seqLen flags len = 0 then q else 6) ≤ segmentPrice q flags len := by
  unfold segmentPrice
  rw [if_neg hrst]
  by_cases hsyn : hasFlag flags tcpSyn
  · have hne : seqLen flags len ≠ 0 := by simp [seqLen, hsyn]
    rw [if_neg hne]
    split_ifs <;> decide
  · have hno : ¬ (hasFlag flags tcpSyn ∧ ¬ hasFlag flags tcpAck) := fun h ↦ hsyn h.1
    rw [if_neg hno]

theorem one_le_segmentPrice {flags : UInt8} {len : ℕ} (hq : 2 ≤ q) :
    1 ≤ segmentPrice q flags len := by
  unfold segmentPrice
  split_ifs <;> omega

section

variable (hp : p ≤ 3) (hq : 2 ≤ q)
include hp hq

theorem synSentSegment_price :
    price p (c.synSentSegment seg).out + (c.synSentSegment seg).conn.potential <
      (if seqLen seg.flags data.length = 0 then q else 6) + c.potential := by
  unfold synSentSegment
  split_ifs with htaken hlen
  · simp only [Bool.and_eq_true] at htaken
    simp [seqLen, htaken.1.1] at hlen
  · simp only [price_singleton, price_sendAckOnly]
    change p + c.potential < _
    omega
  · change 0 + c.potential < _
    omega
  · change 0 + c.potential < _
    omega

theorem synRcvdSegment_price :
    price p (c.synRcvdSegment seg data).out + (c.synRcvdSegment seg data).conn.potential <
      (if seqLen seg.flags data.length = 0 then q else 6) + c.potential := by
  have hsilent : 0 + c.potential <
      (if seqLen seg.flags data.length = 0 then q else 6) + c.potential := by
    split_ifs <;> omega
  unfold synRcvdSegment
  by_cases htaken : (hasFlag seg.flags tcpAck && seg.ackNum == c.sndNxt) = true
  · rw [if_pos htaken]
    dsimp only
    by_cases hdata : (!data.isEmpty || hasFlag seg.flags tcpFin) = true
    · have hne : seqLen seg.flags data.length ≠ 0 := by
        intro hlen
        simp only [seqLen, Nat.add_eq_zero_iff, List.length_eq_zero_iff,
          Bool.toNat_eq_zero] at hlen
        simp [hlen.1.1, hlen.2] at hdata
      rw [if_pos hdata]
      simp only [potential_enterCloseWait]
      exact receive_price _ seg data (fun hlen ↦ absurd hlen hne) hp hq
    · rw [if_neg hdata]
      exact hsilent
  · rw [if_neg htaken]
    exact hsilent

theorem establishedSegment_price (now : Instant) (hst : c.state.receives)
    (hahead : c.AheadEmpty seg data → p < q) :
    price p (c.establishedSegment now seg data).out +
        (c.establishedSegment now seg data).conn.potential <
      (if seqLen seg.flags data.length = 0 then q else 6) + c.potential := by
  have hrec := receive_processAck_price hahead hst hp hq
  unfold establishedSegment
  generalize (c.processAck seg).receiveDataAndMaybeFin seg data = r at hrec ⊢
  have hclose := potential_enterCloseWait r
  have hflush := flushSend_price (p := p) now
    (if r.fin then { r.conn with state := .closeWait } else r.conn)
  dsimp only at hclose hflush ⊢
  rw [price_append]
  omega

theorem finWait1Segment_price (now : Instant) (hst : c.state.receives)
    (hahead : c.AheadEmpty seg data → p < q) :
    price p (c.finWait1Segment now seg data).out +
        (c.finWait1Segment now seg data).conn.potential <
      (if seqLen seg.flags data.length = 0 then q else 6) + c.potential := by
  have hrec := receive_processAck_price hahead hst hp hq
  unfold finWait1Segment
  dsimp only
  generalize (c.processAck seg).receiveDataAndMaybeFin seg data = r at hrec ⊢
  refine lt_of_eq_of_lt (congrArg (price p r.out + ·) ?_) hrec
  split_ifs <;> rfl

theorem finWait2Segment_price (now : Instant) (hst : c.state.receives)
    (hahead : c.AheadEmpty seg data → p < q) :
    price p (c.finWait2Segment now seg data).out +
        (c.finWait2Segment now seg data).conn.potential <
      (if seqLen seg.flags data.length = 0 then q else 6) + c.potential := by
  have hrec := receive_processAck_price hahead hst hp hq
  unfold finWait2Segment
  dsimp only
  generalize (c.processAck seg).receiveDataAndMaybeFin seg data = r at hrec ⊢
  refine lt_of_eq_of_lt (congrArg (price p r.out + ·) ?_) hrec
  split_ifs <;> rfl

theorem timeWaitSegment_price (now : Instant) :
    price p (c.timeWaitSegment now seg).out + (c.timeWaitSegment now seg).conn.potential <
      (if seqLen seg.flags data.length = 0 then q else 6) + c.potential := by
  unfold timeWaitSegment
  split_ifs with hfin hlen
  · simp [seqLen, hfin] at hlen
  · simp only [price_singleton, price_sendAckOnly]
    change p + c.potential < _
    omega
  · change 0 + c.potential < _
    omega
  · change 0 + c.potential < _
    omega

end

theorem closingSegment_potential (now : Instant) (c : TcpConnection) (seg : TcpHeader) :
    price p (c.closingSegment now seg).out + (c.closingSegment now seg).conn.potential =
      c.potential := by
  rw [← processAck_potential c seg, ← Nat.zero_add (c.processAck seg).potential]
  unfold closingSegment
  dsimp only
  split_ifs <;> rfl

theorem lastAckSegment_potential (c : TcpConnection) (seg : TcpHeader) :
    price p (c.lastAckSegment seg).out + (c.lastAckSegment seg).conn.potential = c.potential := by
  rw [← processAck_potential c seg, ← Nat.zero_add (c.processAck seg).potential]
  unfold lastAckSegment
  dsimp only
  split_ifs <;> rfl

theorem closeWaitSegment_price (now : Instant) (c : TcpConnection) (seg : TcpHeader) :
    price p (c.closeWaitSegment now seg).out + (c.closeWaitSegment now seg).conn.potential ≤
      c.potential := by
  rw [← processAck_potential c seg]
  exact flushSend_price now (c.processAck seg)

/-- What a segment makes a connection send costs less than the segment. -/
theorem processSegment_price (now : Instant) (hahead : c.AheadEmpty seg data → p < q) (hp : p ≤ 3)
    (hq : 2 ≤ q) :
    price p (c.processSegment now seg data).out +
        (c.processSegment now seg data).conn.potential <
      segmentPrice q seg.flags data.length + c.potential := by
  have hone : 1 ≤ segmentPrice q seg.flags data.length := one_le_segmentPrice hq
  have hsilent : 0 + c.potential < segmentPrice q seg.flags data.length + c.potential := by omega
  unfold processSegment
  by_cases hrst : hasFlag seg.flags tcpRst
  · split_ifs with hopen
    · exact hsilent
    · have hst : c.state = .closed ∨ c.state = .listen := by
        by_contra hne
        exact hopen ⟨hrst, fun h ↦ hne (.inl h), fun h ↦ hne (.inr h)⟩
      rcases hst with hs | hs <;>
        · rw [hs]
          exact hsilent
  · have hlift {n : ℕ} (h : n < (if seqLen seg.flags data.length = 0 then q else 6) +
        c.potential) : n < segmentPrice q seg.flags data.length + c.potential :=
      lt_of_lt_of_le h (Nat.add_le_add_right (le_segmentPrice hrst) _)
    rw [if_neg fun h ↦ hrst h.1]
    cases hs : c.state with
    | synSent => exact hlift (synSentSegment_price hp hq)
    | synRcvd => exact hlift (synRcvdSegment_price hp hq)
    | established =>
        exact hlift (establishedSegment_price hp hq now (by rw [hs]; rfl) hahead)
    | finWait1 => exact hlift (finWait1Segment_price hp hq now (by rw [hs]; rfl) hahead)
    | finWait2 => exact hlift (finWait2Segment_price hp hq now (by rw [hs]; rfl) hahead)
    | closing => exact lt_of_eq_of_lt (closingSegment_potential now c seg) (by omega)
    | closeWait => exact lt_of_le_of_lt (closeWaitSegment_price now c seg) (by omega)
    | lastAck => exact lt_of_eq_of_lt (lastAckSegment_potential c seg) (by omega)
    | timeWait => exact hlift (timeWaitSegment_price hp hq now)
    | closed | listen => exact hsilent

end TcpConnection

namespace TcpTable

variable {t : TcpTable} {now : Instant} {iss : UInt32} {ipHdr : IpHeader} {seg : TcpHeader}
  {data payload : Bytes} {p q : ℕ}

def potential (t : TcpTable) : ℕ := t.connections.weight TcpConnection.potential

theorem potential_setConnection {key : ConnectionKey} {c : TcpConnection}
    (c' : TcpConnection) (h : t.lookup key = some c) :
    (t.setConnection key c').potential + c.potential = t.potential + c'.potential := by
  have hins := AssocMap.weight_insert TcpConnection.potential t.connections key c'
  have herase := AssocMap.weight_erase TcpConnection.potential h
  unfold potential setConnection
  dsimp only
  omega

theorem potential_setConnection_new (t : TcpTable) (key : ConnectionKey) (c' : TcpConnection) :
    (t.setConnection key c').potential ≤ t.potential + c'.potential := by
  have hins := AssocMap.weight_insert TcpConnection.potential t.connections key c'
  have herase := AssocMap.weight_erase_le TcpConnection.potential t.connections key
  unfold potential setConnection
  dsimp only
  omega

theorem demux_price (hahead : ∀ c, t.lookup (segmentKey ipHdr seg) = some c →
      c.AheadEmpty seg data → p < q) (hp : p ≤ 3) (hq : 2 ≤ q) :
    price p (t.demux now iss ipHdr seg data).2 + (t.demux now iss ipHdr seg data).1.potential <
      segmentPrice q seg.flags data.length + t.potential := by
  unfold demux
  dsimp only
  cases hlook : t.lookup (segmentKey ipHdr seg) with
  | some c =>
      have hseg := TcpConnection.processSegment_price now (hahead c hlook) hp hq
      have hset := potential_setConnection (c.processSegment now seg data).conn hlook
      have hclean (t₀ : TcpTable) : t₀.cleanupClosedConnections.potential ≤ t₀.potential :=
        AssocMap.weight_retain_le _ _ _
      have hproc : (t.processSegment now (segmentKey ipHdr seg) c seg data).1.potential =
          (t.setConnection (segmentKey ipHdr seg)
            (c.processSegment now seg data).conn).potential := by
        unfold processSegment
        dsimp only
        split_ifs <;> rfl
      have hle := hclean (t.processSegment now (segmentKey ipHdr seg) c seg data).1
      change price p (c.processSegment now seg data).out + _ < _
      dsimp only
      omega
  | none =>
      dsimp only
      split_ifs with hsyn hrst
      · have hprice : segmentPrice q seg.flags data.length = 7 := if_pos ⟨hsyn.1, hsyn.2.1⟩
        have hopen :
            price p (TcpConnection.passiveOpen now iss (segmentKey ipHdr seg) seg).2 = 6 := by
          refine (price_singleton p _).trans ?_
          exact TcpConnection.price_sendSegment (by decide) (by decide) (by decide)
        have hset := potential_setConnection_new t (segmentKey ipHdr seg)
          (TcpConnection.passiveOpen now iss (segmentKey ipHdr seg) seg).1
        have hzero : (TcpConnection.passiveOpen now iss (segmentKey ipHdr seg) seg).1.potential =
            0 := rfl
        rw [hprice, hopen]
        dsimp only
        omega
      · have hone : 1 ≤ segmentPrice q seg.flags data.length := by
          unfold segmentPrice
          split_ifs <;> omega
        rw [price_nil]
        dsimp only
        omega
      · have htwo : 2 ≤ segmentPrice q seg.flags data.length := by
          unfold segmentPrice
          simp only [if_neg hrst]
          split_ifs <;> omega
        have hreset : (sendRstForUnknown ipHdr seg data.length).price p = 1 := by
          obtain ⟨hr, hs, -⟩ := isReset_sendRstForUnknown ipHdr seg data.length
          simp [Emission.price, segmentPrice, hr, hs]
        rw [price_singleton, hreset]
        dsimp only
        omega

end TcpTable

/-! ## Two tables that only answer -/

/-- Two tables and the packets of either that are still on their way. -/
structure Exchange where
  table : Side → TcpTable
  flight : Side → List Emission

/-- The arrival of one packet at one side. -/
structure Delivery where
  side : Side
  segment : Emission
  now : Instant
  iss : UInt32
  ipHdr : IpHeader

def Delivery.event (d : Delivery) : TableEvent :=
  .segment d.now d.iss d.ipHdr (d.segment.packet.bytes.drop (d.ipHdr.ihl.toNat * 4))

namespace Exchange

open MiniTcp.System

variable {e e' : Exchange} {d : Delivery} {x : Side}

/-- The packet is gone, and what the receiver sends is on its way. -/
def deliver (e : Exchange) (d : Delivery) : Exchange where
  table := Function.update e.table d.side ((e.table d.side).step d.event).1
  flight :=
    Function.update
      (Function.update e.flight d.side.other ((e.flight d.side.other).erase d.segment))
      d.side (e.flight d.side ++ ((e.table d.side).step d.event).2)

def Delivers (e : Exchange) (d : Delivery) (e' : Exchange) : Prop :=
  d.segment ∈ e.flight d.side.other ∧ parseIpHeader d.segment.packet.bytes = some d.ipHdr ∧
    e' = e.deliver d

/-- The packet is empty and ahead of what the receiver expects. -/
def AheadEmpty (e : Exchange) (d : Delivery) : Prop :=
  ∃ c, (e.table d.side).lookup d.segment.source.mirror = some c ∧
    c.AheadEmpty d.segment.parsed d.segment.data

/-- Empty segments from `x` may still be answered, those to `x` may not. -/
def emptyPrice (x y : Side) : ℕ := if y = x then 3 else 2

def share (x : Side) (e : Exchange) (y : Side) : ℕ :=
  (e.table y).potential + price (emptyPrice x y) (e.flight y)

def potential (x : Side) (e : Exchange) : ℕ := share x e .a + share x e .b

theorem potential_eq (x y : Side) (e : Exchange) :
    potential x e = share x e y + share x e y.other := by
  cases y with
  | a => rfl
  | b => exact Nat.add_comm _ _

theorem out_price (hd : e.Delivers d e') (hx : d.side = x → ¬ e.AheadEmpty d) :
    price (emptyPrice x d.side) ((e.table d.side).step d.event).2 +
        ((e.table d.side).step d.event).1.potential <
      d.segment.price (emptyPrice x d.side.other) + (e.table d.side).potential := by
  obtain ⟨-, hparse, -⟩ := hd
  have hp : emptyPrice x d.side ≤ 3 := by
    unfold emptyPrice
    split_ifs <;> omega
  have hq : 2 ≤ emptyPrice x d.side.other := by
    unfold emptyPrice
    split_ifs <;> omega
  unfold Delivery.event TcpTable.step TcpTable.handleSegment
  dsimp only
  cases hseg : TcpTable.acceptedSegment d.ipHdr
      (d.segment.packet.bytes.drop (d.ipHdr.ihl.toNat * 4)) with
  | none =>
      have hone : 1 ≤ d.segment.price (emptyPrice x d.side.other) := by
        unfold Emission.price segmentPrice
        split_ifs <;> omega
      dsimp only
      rw [price_nil]
      omega
  | some r =>
      obtain ⟨seg, data⟩ := r
      obtain ⟨rfl, rfl, hkey⟩ := TcpTable.acceptedSegment_bytes hparse hseg
      refine TcpTable.demux_price (fun c hc hahead ↦ ?_) hp hq
      rw [hkey] at hc
      -- only the side other than `x` is reached by such a segment
      have hside : d.side ≠ x := fun h ↦ hx h ⟨c, hc, hahead⟩
      have hother : d.side.other = x := by
        rcases d.side.eq_or_eq_other x with h | h
        · exact absurd h.symm hside
        · exact h.symm
      simp [emptyPrice, hside, hother]

theorem potential_deliver (hd : e.Delivers d e') (hx : d.side = x → ¬ e.AheadEmpty d) :
    e'.potential x < e.potential x := by
  have hout := out_price hd hx
  obtain ⟨hmem, -, rfl⟩ := hd
  have herase := price_erase (p := emptyPrice x d.side.other) hmem
  have hne := d.side.other_ne
  rw [potential_eq x d.side, potential_eq x d.side e]
  simp only [share, deliver, Function.update_self, Function.update_of_ne hne, price_append]
  omega

/-- As long as empty segments ahead of `rcv_nxt` reach at most one of the two sides, the
number of deliveries is bounded. -/
theorem deliveries_le {f : ℕ → Exchange} {d : ℕ → Delivery} {n : ℕ}
    (hrun : ∀ i < n, (f i).Delivers (d i) (f (i + 1)))
    (hx : ∀ i < n, (d i).side = x → ¬ (f i).AheadEmpty (d i)) :
    n ≤ (f 0).potential x := by
  have hle := Run.length_le_of_decreasing (μ := potential x) (f := f) (n := n)
    fun i hi ↦ potential_deliver (hrun i hi) (hx i hi)
  omega

theorem deliveries_le_two :
    ∃ (s : System) (f : ℕ → Exchange) (d : ℕ → Delivery), s.Reached ∧
      (f 0).table = (fun x ↦ (s.host x).table) ∧
      (∀ i < 2, (f i).Delivers (d i) (f (i + 1))) ∧ (∀ x, (f 2).flight x = []) ∧
      2 ≤ (f 0).potential .a := by
  let s₁ := ((start 0 1000 1 2 80).act .b (.listen 2 80 false)).deliver .b 0 5000 0
  let s₂ := ((s₁.deliver .a 0 0 0).deliver .b 0 0 1).act .a (.send 0 ⟨1, 49152, 2, 80⟩ [1])
  have h₁ : s₁.Reached :=
    ((reachable_start 0 1000 1 2 80).act .b (.listen 2 80 false) trivial trivial).deliver
      .b 0 5000 0 trivial
  have h₂ : s₂.Reached :=
    ((h₁.deliver .a 0 0 0 trivial).deliver .b 0 0 1 trivial).act .a
      (.send 0 ⟨1, 49152, 2, 80⟩ [1]) trivial trivial
  let hdr (m : Emission) : IpHeader := (parseIpHeader m.packet.bytes).getD m.packet.ipHeader
  let data : Emission := ⟨.queued, 1, 2, ⟨49152, 80, 1001, 5001, 80, 24, 65535, 0, 0⟩, [1]⟩
  let ack : Emission := ⟨.ack, 2, 1, ⟨80, 49152, 5001, 1002, 80, 16, 65535, 0, 0⟩, []⟩
  let toB : Delivery := ⟨.b, data, 0, 0, hdr data⟩
  let toA : Delivery := ⟨.a, ack, 0, 0, hdr ack⟩
  let e : Exchange := ⟨fun x ↦ (s₂.host x).table, fun x ↦ if x = .a then [data] else []⟩
  let f : ℕ → Exchange
    | 0 => e
    | 1 => e.deliver toB
    | _ => (e.deliver toB).deliver toA
  let d : ℕ → Delivery
    | 0 => toB
    | _ => toA
  have hrun : ∀ i < 2, (f i).Delivers (d i) (f (i + 1)) := by
    intro i hi
    obtain rfl | rfl : i = 0 ∨ i = 1 := by omega
    · exact ⟨by decide +kernel, by decide +kernel, rfl⟩
    · exact ⟨by decide +kernel, by decide +kernel, rfl⟩
  have hnxt : (((f 1).table .a).lookup ack.source.mirror).map (fun c ↦ c.rcvNxt) =
      some 5001 := by decide +kernel
  refine ⟨s₂, f, d, h₂, rfl, hrun, fun x ↦ ?_, deliveries_le hrun fun i hi hside ↦ ?_⟩
  · cases x <;> decide +kernel
  · obtain rfl | rfl : i = 0 ∨ i = 1 := by omega
    · cases hside
    · rintro ⟨c, hc, -, -, hahead⟩
      obtain ⟨c', hc', hnxt⟩ := Option.map_eq_some_iff.mp hnxt
      obtain rfl : c = c' := Option.some.inj (hc.symm.trans hc')
      rw [hnxt] at hahead
      exact absurd hahead (by decide)

/-- Either side has lost a byte of the other and has sent more since, so every ACK is
ahead of what its receiver expects and is answered by another one. -/
theorem exists_endless_deliveries :
    ∃ (s : System) (f : ℕ → Exchange) (d : ℕ → Delivery), s.Reached ∧
      (∀ x, (s.track x).map (fun t ↦ t.conn.state) = some .established) ∧
      (f 0).table = (fun x ↦ (s.host x).table) ∧ (∀ x, ((f 0).flight x).Sublist (s.sent x)) ∧
      ∀ i, (f i).Delivers (d i) (f (i + 1)) := by
  let ka : ConnectionKey := ⟨1, 49152, 2, 80⟩
  let kb : ConnectionKey := ⟨2, 80, 1, 49152⟩
  let s₁ := ((start 0 1000 1 2 80).act .b (.listen 2 80 false)).deliver .b 0 5000 0
  let s₂ := ((s₁.deliver .a 0 0 0).deliver .b 0 0 1).act .a (.send 0 ka [1])
  let s₃ := (s₂.act .b (.send 0 kb [9])).act .a (.send 0 ka [2])
  let s₄ := s₃.deliver .b 0 0 3
  have h₁ : s₁.Reached :=
    ((reachable_start 0 1000 1 2 80).act .b (.listen 2 80 false) trivial trivial).deliver
      .b 0 5000 0 trivial
  have h₂ : s₂.Reached :=
    ((h₁.deliver .a 0 0 0 trivial).deliver .b 0 0 1 trivial).act .a (.send 0 ka [1]) trivial
      trivial
  have h₃ : s₃.Reached :=
    (h₂.act .b (.send 0 kb [9]) trivial trivial).act .a (.send 0 ka [2]) trivial trivial
  have h₄ : s₄.Reached := h₃.deliver .b 0 0 3 trivial
  have hopen : ∀ x, (s₄.track x).map (fun t ↦ t.conn.state) = some .established := by
    intro x
    cases x <;> decide +kernel
  let ackA : Emission := ⟨.ack, 1, 2, ⟨49152, 80, 1003, 5001, 80, 16, 65535, 0, 0⟩, []⟩
  let ackB : Emission := ⟨.ack, 2, 1, ⟨80, 49152, 5002, 1001, 80, 16, 65535, 0, 0⟩, []⟩
  let hdr (m : Emission) : IpHeader := (parseIpHeader m.packet.bytes).getD m.packet.ipHeader
  let toB : Delivery := ⟨.b, ackA, 0, 0, hdr ackA⟩
  let toA : Delivery := ⟨.a, ackB, 0, 0, hdr ackB⟩
  let e : Exchange := ⟨fun x ↦ (s₄.host x).table, fun x ↦
    if x = .a then (s₄.sent .a).filter fun m ↦ m.data = [1] else (s₄.sent .b).drop 1⟩
  have hback : (e.deliver toA).deliver toB = e := by
    refine congrArg₂ mk (funext fun x ↦ ?_) (funext fun x ↦ ?_) <;> cases x <;> decide +kernel
  refine ⟨s₄, fun i ↦ if i % 2 = 0 then e else e.deliver toA,
    fun i ↦ if i % 2 = 0 then toA else toB, h₄, hopen, rfl, fun x ↦ ?_, fun i ↦ ?_⟩
  · cases x <;> decide +kernel
  · rcases Nat.mod_two_eq_zero_or_one i with hi | hi
    · have hsucc : (i + 1) % 2 = 1 := by omega
      simp only [hi, hsucc, if_true, one_ne_zero, if_false]
      exact ⟨by decide +kernel, by decide +kernel, rfl⟩
    · have hsucc : (i + 1) % 2 = 0 := by omega
      simp only [hi, hsucc, if_true, one_ne_zero, if_false]
      exact ⟨by decide +kernel, by decide +kernel, hback.symm⟩

end Exchange

end MiniTcp
