import MiniTcp.Checked.Connection
import MiniTcp.StackRun

/-!
# No inbound packet crashes the stack

The connection table and the demultiplexer with their panics, and one round of the
event loop: a packet of the size of the read buffer is handled and the timers run.  On
every reachable stack the round ends, with the result of the model without panics.

The lists of the model have no bound, the memory of a process has: what a connection
or a binding holds and the packet lie at different addresses, so that together they have
fewer than `2 ^ 64` bytes (`Addressable`).  Nothing in the source bounds `recv_buffer` on
the path of data in order, so the sums of `buffered_bytes` fit a `usize` for this reason
only.  Running out of memory is an abort and no panic, and is left out.
-/

open Panic

namespace MiniTcp.Checked

/-! ## The table -/

namespace Table

def processSegment (t : TcpTable) (now : Instant) (key : ConnectionKey) (seg : TcpHeader)
    (payload : Bytes) : Except Panic (TcpTable × List Bytes) := do
  -- `expect("connection must exist")`
  let c ← unwrap (t.lookup key)
  let r ← Checked.processSegment now c seg payload
  let t₁ := t.setConnection key r.conn
  return (if r.enqueue then t₁.pushAccept (c.localAddr, c.localPort) key else t₁, r.out)

def openPassive (t : TcpTable) (now : Instant) (iss : UInt32) (key : ConnectionKey)
    (seg : TcpHeader) : Except Panic (TcpTable × List Bytes) := do
  let t₁ := t.setConnection key
    { TcpConnection.new now with
      localAddr := key.localAddr
      localPort := key.localPort
      remoteAddr := key.remoteAddr
      remotePort := key.remotePort
      irs := seg.seqNum
      rcvNxt := seg.seqNum + 1
      iss := iss
      sndUna := iss
      sndNxt := iss
      sndWnd := seg.window.toUInt32
      state := .synRcvd }
  let c ← unwrap (t₁.lookup key)
  let (c₁, out) ← queueAndSend now (tcpSyn ||| tcpAck) [] c
  return (t₁.setConnection key c₁, out)

def demux (t : TcpTable) (now : Instant) (iss : UInt32) (ipHdr : IpHeader) (seg : TcpHeader)
    (data : Bytes) : Except Panic (TcpTable × List Bytes) :=
  let key := TcpTable.segmentKey ipHdr seg
  if (t.lookup key).isSome then do
    let (t₁, out) ← processSegment t now key seg data
    return (t₁.cleanupClosedConnections, out)
  else if hasFlag seg.flags tcpSyn ∧ ¬ hasFlag seg.flags tcpAck ∧
      (ipHdr.dstAddr, seg.dstPort) ∈ t.listeners then openPassive t now iss key seg
  else if hasFlag seg.flags tcpRst then .ok (t, [])
  else do
    let packet ← sendPacket (TcpTable.sendRstForUnknown ipHdr seg data.length).packet
    return (t, [packet])

def handleSegment (t : TcpTable) (now : Instant) (iss : UInt32) (ipHdr : IpHeader)
    (payload : Bytes) : Except Panic (TcpTable × List Bytes) :=
  if payload.length < tcpHeaderLen then .ok (t, [])
  else do
    let parsed ← parseTcpHeader payload
    match parsed with
    | none => .ok (t, [])
    | some seg => do
        let csum ← tcpChecksum ipHdr.srcAddr ipHdr.dstAddr payload
        if csum ≠ 0 then .ok (t, [])
        else do
          let data ← sliceFrom payload tcpHeaderLen
          demux t now iss ipHdr seg data

def tick (t : TcpTable) (now : Instant) : Except Panic (TcpTable × List Bytes) := do
  let ticked ← AssocMap.mapValsM (Checked.tick now) t.connections
  let t₁ := { t with connections := ticked.mapVals Prod.fst }
  return (t₁.cleanupClosedConnections, ticked.values.flatMap Prod.snd)

end Table

/-! ## The event loop -/

def handlePacket (s : Stack) (now : Instant) (iss : UInt32) (ipHdr : IpHeader)
    (payload : Bytes) : Except Panic (Stack × List Bytes) :=
  if ipHdr.protocol = 1 then do
    let out ← handleIcmp ipHdr payload
    return (s, out)
  else if ipHdr.protocol = 17 then do
    let (udp, out) ← handleDatagram s.udp ipHdr payload
    return ({ s with udp := udp }, out)
  else if ipHdr.protocol = 6 then do
    let (tcp, out) ← Table.handleSegment s.tcp now iss ipHdr payload
    return ({ s with tcp := tcp }, out)
  else .ok (s, [])

def dispatchIpPacket (s : Stack) (now : Instant) (iss : UInt32) (buf : Bytes) :
    Except Panic (Stack × List Bytes) := do
  let parsed ← parseIpHeader buf
  match parsed with
  | none => .ok (s, [])
  | some ipHdr => do
      let valid ← verifyIpChecksum buf
      if !valid then .ok (s, [])
      else do
        let headerBytes ← mul 64 ipHdr.ihl.toNat 4
        if headerBytes > buf.length then .ok (s, [])
        else do
          let payload ← sliceFrom buf headerBytes
          handlePacket s now iss ipHdr payload

/-- `pump_once` with a packet to read. -/
def pumpPacket (s : Stack) (received : Instant) (iss : UInt32) (buf : Bytes) (ticked : Instant) :
    Except Panic (Stack × List Bytes) := do
  let (s₁, out) ← dispatchIpPacket s received iss buf
  let (tcp, out') ← Table.tick s₁.tcp ticked
  return ({ s₁ with tcp := tcp }, out ++ out')

/-! ## No round of the loop panics -/

namespace Table

variable {t : TcpTable} {now : Instant} {seg : TcpHeader} {payload : Bytes} {ipHdr : IpHeader}

theorem processSegment_ok {key : ConnectionKey} {c : TcpConnection} (hnow : Ticking now)
    (hc : t.lookup key = some c) (hroom : c.bufferedBytes + payload.length < 2 ^ 64) :
    processSegment t now key seg payload =
      .ok ((t.processSegment now key c seg payload).1,
        written (t.processSegment now key c seg payload).2) := by
  rw [processSegment, hc, unwrap_some, ok_bind, Checked.processSegment_ok hnow hroom]
  rfl

theorem openPassive_ok (t : TcpTable) (now : Instant) (iss : UInt32) (key : ConnectionKey)
    (seg : TcpHeader) :
    openPassive t now iss key seg =
      .ok (t.setConnection key (TcpConnection.passiveOpen now iss key seg).1,
        written (TcpConnection.passiveOpen now iss key seg).2) := by
  have hempty : ([] : Bytes).length ≤ mss := Nat.zero_le _
  have hzero : 0 < 2 ^ 64 := Nat.two_pow_pos 64
  have hset (c c' : TcpConnection) :
      (t.setConnection key c).setConnection key c' = t.setConnection key c' := by
    simp only [TcpTable.setConnection, AList.insert_insert]
  rw [openPassive]
  dsimp only
  rw [TcpTable.lookup_setConnection, if_pos rfl, unwrap_some, ok_bind, queueAndSend_ok, ok_bind]
  · dsimp only
    rw [hset]
    rfl
  · exact hzero
  · exact hempty

theorem demux_ok (hnow : Ticking now) (iss : UInt32)
    (hroom : ∀ k c, t.lookup k = some c → c.bufferedBytes + payload.length < 2 ^ 64) :
    demux t now iss ipHdr seg payload =
      .ok ((t.demux now iss ipHdr seg payload).1,
        written (t.demux now iss ipHdr seg payload).2) := by
  unfold demux TcpTable.demux
  dsimp only
  cases hc : t.lookup (TcpTable.segmentKey ipHdr seg) with
  | some c =>
      rw [Option.isSome_some, if_pos rfl, processSegment_ok hnow hc (hroom _ c hc)]
      rfl
  | none =>
      rw [Option.isSome_none, if_neg Bool.false_ne_true, openPassive_ok]
      dsimp only
      split_ifs
      · rfl
      · rfl
      · rw [sendPacket_ok (Nat.zero_le _)]
        rfl

theorem handleSegment_ok (hnow : Ticking now) (iss : UInt32) (hlen : payload.length ≤ 131062)
    (hroom : ∀ k c, t.lookup k = some c → c.bufferedBytes + payload.length < 2 ^ 64) :
    handleSegment t now iss ipHdr payload =
      .ok ((t.handleSegment now iss ipHdr payload).1,
        written (t.handleSegment now iss ipHdr payload).2) := by
  unfold handleSegment TcpTable.handleSegment TcpTable.acceptedSegment
  by_cases hshort : payload.length < tcpHeaderLen
  · rw [if_pos hshort, if_pos hshort]
    rfl
  · rw [if_neg hshort, if_neg hshort, parseTcpHeader_ok, ok_bind]
    cases MiniTcp.parseTcpHeader payload with
    | none => rfl
    | some seg =>
        have hdata := (List.drop_sublist tcpHeaderLen payload).length_le
        dsimp only
        rw [tcpChecksum_ok _ _ hlen, ok_bind]
        split_ifs
        · rfl
        · rw [sliceFrom_of_le (not_lt.mp hshort), ok_bind, demux_ok hnow iss]
          intro k c hc
          exact lt_of_le_of_lt (Nat.add_le_add_left hdata _) (hroom k c hc)

theorem tick_ok (hnow : Ticking now)
    (ht : ∀ k c, t.lookup k = some c → c.Bounded ∧ c.bufferedBytes < 2 ^ 64) :
    tick t now = .ok ((t.tick now).1, written (t.tick now).2) := by
  have hall : ∀ c ∈ t.connections.values,
      Checked.tick now c = .ok ((c.tick now).1, written (c.tick now).2) := by
    intro c hc
    obtain ⟨k, hk⟩ := AssocMap.mem_values.mp hc
    exact Checked.tick_ok hnow (ht k c hk).1 (ht k c hk).2
  rw [tick, AssocMap.mapValsM_of_ok hall, ok_bind, AssocMap.mapVals_mapVals,
    AssocMap.values_mapVals, List.flatMap_map, TcpTable.tick, written, List.map_flatMap]
  rfl

end Table

/-- The packet and what a connection or a binding holds lie in one address space of
`2 ^ 64` bytes. -/
structure Addressable (s : Stack) (buf : Bytes) : Prop where
  connections : ∀ k c, s.tcp.lookup k = some c → c.bufferedBytes + buf.length < 2 ^ 64
  bindings : ∀ k b, s.udp.binding k = some b →
    (b.recvQueue.map fun dg ↦ dg.data.length).sum + buf.length < 2 ^ 64

variable {s : Stack} {now : Instant} {iss : UInt32} {buf : Bytes}

theorem handlePacket_ok (hnow : Ticking now) (hmem : Addressable s buf) (hlen : buf.length ≤ 2048)
    (ipHdr : IpHeader) {payload : Bytes} (hle : payload.length ≤ buf.length) :
    handlePacket s now iss ipHdr payload = .ok (s.handlePacket now iss ipHdr payload) := by
  unfold handlePacket Stack.handlePacket
  split_ifs
  · rw [handleIcmp_ok ipHdr (by omega)]
    rfl
  · rw [handleDatagram_ok (by omega) fun k b hb ↦
      lt_of_le_of_lt (Nat.add_le_add_left hle _) (hmem.bindings k b hb)]
    rfl
  · rw [Table.handleSegment_ok hnow iss (by omega) fun k c hc ↦
      lt_of_le_of_lt (Nat.add_le_add_left hle _) (hmem.connections k c hc)]
    rfl
  · rfl

theorem dispatchIpPacket_ok (hnow : Ticking now) (hmem : Addressable s buf)
    (hlen : buf.length ≤ 2048) :
    dispatchIpPacket s now iss buf = .ok (s.dispatchIpPacket now iss buf) := by
  unfold dispatchIpPacket Stack.dispatchIpPacket acceptedPacket
  rw [parseIpHeader_ok, ok_bind]
  cases MiniTcp.parseIpHeader buf with
  | none => rfl
  | some ipHdr =>
      have hihl := ipHdr.ihl.toNat_lt
      dsimp only
      rw [verifyIpChecksum_ok, ok_bind]
      cases MiniTcp.verifyIpChecksum buf with
      | false => rfl
      | true =>
          rw [Bool.not_true, if_neg Bool.false_ne_true, if_pos rfl, mul_of_lt (by omega), ok_bind]
          split_ifs with hheader
          · rfl
          · rw [sliceFrom_of_le (not_lt.mp hheader), ok_bind,
              handlePacket_ok hnow hmem hlen ipHdr (List.drop_sublist _ buf).length_le]

/-- One segment adds no more to a buffer than its own length. -/
theorem bufferedBytes_handleSegment {t : TcpTable} {ipHdr : IpHeader} {payload : Bytes} {n : ℕ}
    (hroom : ∀ k c, t.lookup k = some c → c.bufferedBytes + payload.length < n)
    {k : ConnectionKey} {c' : TcpConnection} (hn : 0 < n)
    (hc' : (t.handleSegment now iss ipHdr payload).1.lookup k = some c') :
    c'.bufferedBytes < n := by
  have hstep : (t.step (.segment now iss ipHdr payload)).1.lookup k = some c' := hc'
  rcases TcpTable.lookup_step hstep with ⟨tr, htr, rfl⟩ | ⟨-, c, hc, rfl⟩
  · rcases TableEvent.opened_key htr with ⟨now, iss, rfl⟩ | ⟨now, iss, seg, rfl⟩ <;> exact hn
  · have hc := hroom k c hc
    simp only [TableEvent.on]
    split
    · next seg data hseg =>
        have hdata : data.length ≤ payload.length := by
          rw [(TcpTable.acceptedSegment_spec hseg).2.2]
          exact (List.drop_sublist _ payload).length_le
        split_ifs
        · have hle := c.bufferedBytes_processSegment_le now seg data
          exact lt_of_le_of_lt (hle.trans (Nat.add_le_add_left hdata _)) hc
        · exact lt_of_le_of_lt (Nat.le_add_right _ _) hc
    · exact lt_of_le_of_lt (Nat.le_add_right _ _) hc

theorem bufferedBytes_dispatch (hmem : Addressable s buf) {k : ConnectionKey} {c' : TcpConnection}
    (hc' : (s.dispatchIpPacket now iss buf).1.tcp.lookup k = some c') :
    c'.bufferedBytes < 2 ^ 64 := by
  have hkeep (hc' : s.tcp.lookup k = some c') : c'.bufferedBytes < 2 ^ 64 :=
    lt_of_le_of_lt (Nat.le_add_right _ _) (hmem.connections k c' hc')
  unfold Stack.dispatchIpPacket at hc'
  split at hc'
  · exact hkeep hc'
  · next ipHdr payload hpacket =>
      obtain ⟨-, -, -, rfl⟩ := acceptedPacket_eq_some.mp hpacket
      unfold Stack.handlePacket at hc'
      split_ifs at hc'
      · exact hkeep hc'
      · exact hkeep hc'
      · refine bufferedBytes_handleSegment ?_ (Nat.two_pow_pos 64) hc'
        intro k c hc
        have hle := (List.drop_sublist (ipHdr.ihl.toNat * 4) buf).length_le
        exact lt_of_le_of_lt (Nat.add_le_add_left hle _) (hmem.connections k c hc)
      · exact hkeep hc'

theorem ticking_toNat (now : UInt64) : Ticking now.toNat := by
  calc now.toNat + maxRto < 2 ^ 64 + maxRto := Nat.add_lt_add_right now.toNat_lt maxRto
    _ < instantSize := by decide

/-- A packet that fits the read buffer makes no round of the loop panic.  The clock
counts nanoseconds in 64 bits. -/
theorem pumpPacket_never_panics (hs : s.Reachable) (hmem : Addressable s buf)
    (hlen : buf.length ≤ 2048) (received ticked : UInt64) (iss : UInt32) :
    pumpPacket s received.toNat iss buf ticked.toNat =
      .ok (s.pumpOnce ⟨some buf, iss, received.toNat, received.toNat, ticked.toNat⟩) := by
  have hhosted : (s.dispatchIpPacket received.toNat iss buf).1.tcp.Hosted := by
    rw [Stack.dispatchIpPacket_tcp]
    exact hs.hosted.run _
  rw [pumpPacket, dispatchIpPacket_ok (ticking_toNat received) hmem hlen, ok_bind]
  dsimp only
  rw [Table.tick_ok (ticking_toNat ticked)]
  · rfl
  · intro k c hc
    obtain ⟨tr, htr, rfl⟩ := hhosted.track hc
    exact ⟨htr.bounded, bufferedBytes_dispatch hmem hc⟩

/-- The acknowledgment that ends the handshake, with three bytes of data. -/
def firstData : Bytes :=
  Packet.bytes ⟨2, 1, ⟨5000, 80, 8, 101, 0x50, tcpAck, 1000, 0, 0⟩, [1, 2, 3]⟩

theorem addressable_listening : Addressable Stack.listening firstData := by
  constructor
  · intro k c hc
    have hall : ∀ c ∈ Stack.listening.tcp.connections.values,
        c.bufferedBytes + firstData.length < 2 ^ 64 := by decide +kernel
    exact hall c (AssocMap.mem_values.mpr ⟨k, hc⟩)
  · intro k b hb
    have hall : ∀ b ∈ Stack.listening.udp.binds.values,
        (b.recvQueue.map fun dg ↦ dg.data.length).sum + firstData.length < 2 ^ 64 := by
      decide +kernel
    exact hall b (AssocMap.mem_values.mpr ⟨k, hb⟩)

theorem pumpPacket_never_panics_firstData :
    Stack.listening.Reachable ∧ Addressable Stack.listening firstData ∧ firstData.length ≤ 2048 ∧
      ((Stack.listening.dispatchIpPacket 5 0 firstData).1.tcp.lookup ⟨1, 80, 2, 5000⟩).map
        (fun c ↦ (c.state, c.recvBuffer)) = some (.established, [1, 2, 3]) ∧
      pumpPacket Stack.listening (5 : UInt64).toNat 0 firstData (6 : UInt64).toNat =
        .ok (Stack.listening.pumpOnce ⟨some firstData, 0, 5, 5, 6⟩) :=
  ⟨Stack.reachable_listening, addressable_listening, by decide +kernel, by decide +kernel,
    pumpPacket_never_panics Stack.reachable_listening addressable_listening (by decide +kernel)
      5 6 0⟩

end MiniTcp.Checked
