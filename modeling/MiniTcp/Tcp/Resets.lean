import MiniTcp.Tcp.Host
import MiniTcp.Tcp.States

/-!
# Incoming resets

A reset closes the connection it names and is not answered.  The three places that look
at the flags do so in different orders: a SYN for a listening port is recognised before
the RST flag is looked at.
-/

namespace MiniTcp

theorem TcpConnection.processSegment_rst {c : TcpConnection} {seg : TcpHeader}
    (hrst : hasFlag seg.flags tcpRst) (hst : c.state ≠ .listen) (now : Instant)
    (payload : Bytes) :
    c.processSegment now seg payload = ⟨{ c with state := .closed }, [], false, false⟩ := by
  unfold processSegment
  by_cases hclosed : c.state = .closed
  · rw [if_neg (by simp [hclosed]), hclosed]
    obtain ⟨⟩ := c
    cases hclosed
    rfl
  · rw [if_pos ⟨hrst, hclosed, hst⟩]

namespace TcpTable

variable {t : TcpTable} {now : Instant} {iss : UInt32} {ipHdr : IpHeader} {seg : TcpHeader}
  {data : Bytes}

/-- What a reset leaves behind: no answer, no new connection, no new entry of an accept
queue, and no connection under its own 4-tuple. -/
structure Ended (t : TcpTable) (key : ConnectionKey) (r : TcpTable × List Emission) : Prop where
  silent : r.2 = []
  connections : ∀ k, t.lookup k = none → r.1.lookup k = none
  queues : r.1.acceptQueues = t.acceptQueues
  gone : r.1.lookup key = none

/-- The segment opens a connection although it is a reset. -/
def OpensOnReset (t : TcpTable) (ipHdr : IpHeader) (seg : TcpHeader) : Prop :=
  hasFlag seg.flags tcpSyn ∧ ¬ hasFlag seg.flags tcpAck ∧
    (ipHdr.dstAddr, seg.dstPort) ∈ t.listeners ∧ t.lookup (segmentKey ipHdr seg) = none

theorem lookup_cleanup_setConnection_closed (t : TcpTable) (key k : ConnectionKey)
    (c : TcpConnection) (hk : k = key ∨ t.lookup k = none) :
    (t.setConnection key { c with state := .closed }).cleanupClosedConnections.lookup k =
      none := by
  rw [Option.eq_none_iff_forall_ne_some]
  intro c' hc'
  obtain ⟨hlook, hopen⟩ := AssocMap.lookup_retain_eq_some.mp hc'
  have hset := lookup_setConnection t key k { c with state := .closed }
  rw [lookup, hlook] at hset
  split_ifs at hset with heq
  · rw [Option.some.inj hset] at hopen
    cases hopen
  · rw [hk.resolve_left heq] at hset
    cases hset

theorem demux_rst_of_lookup {c : TcpConnection} (hrst : hasFlag seg.flags tcpRst)
    (hc : t.lookup (segmentKey ipHdr seg) = some c) (hst : c.state ≠ .listen) :
    t.Ended (segmentKey ipHdr seg) (t.demux now iss ipHdr seg data) := by
  have hdemux : t.demux now iss ipHdr seg data =
      ((t.setConnection (segmentKey ipHdr seg)
        { c with state := .closed }).cleanupClosedConnections, []) := by
    simp only [demux, hc, processSegment, TcpConnection.processSegment_rst hrst hst,
      Bool.false_eq_true, if_false]
  rw [hdemux]
  refine ⟨rfl, fun k hk ↦ ?_, rfl, ?_⟩
  · exact lookup_cleanup_setConnection_closed _ _ _ _ (.inr hk)
  · exact lookup_cleanup_setConnection_closed _ _ _ _ (.inl rfl)

theorem demux_rst_iff (hrst : hasFlag seg.flags tcpRst)
    (hst : ∀ c, t.lookup (segmentKey ipHdr seg) = some c → c.state ≠ .listen) :
    t.Ended (segmentKey ipHdr seg) (t.demux now iss ipHdr seg data) ↔
      ¬ t.OpensOnReset ipHdr seg := by
  cases hc : t.lookup (segmentKey ipHdr seg) with
  | some c =>
      refine iff_of_true (demux_rst_of_lookup hrst hc (hst c hc)) ?_
      rintro ⟨-, -, -, hnone⟩
      rw [hc] at hnone
      cases hnone
  | none =>
      by_cases hopens : hasFlag seg.flags tcpSyn ∧ ¬ hasFlag seg.flags tcpAck ∧
          (ipHdr.dstAddr, seg.dstPort) ∈ t.listeners
      · refine iff_of_false (fun hended ↦ ?_) (not_not.mpr ⟨hopens.1, hopens.2.1, hopens.2.2, hc⟩)
        -- the new connection answers with its SYN,ACK
        have hsilent := hended.silent
        simp only [demux, hc, if_pos hopens] at hsilent
        cases hsilent
      · have hdemux : t.demux now iss ipHdr seg data = (t, []) := by
          simp only [demux, hc, if_neg hopens, if_pos hrst]
        rw [hdemux]
        exact iff_of_true ⟨rfl, fun _ hk ↦ hk, rfl, hc⟩ fun h ↦ hopens ⟨h.1, h.2.1, h.2.2.1⟩

end TcpTable

namespace Host

/-- A reset ends what it names and opens nothing, unless it is a SYN without ACK for a
listening port that no connection takes. -/
theorem rst_ended_iff {h : Host} (hh : h.Reachable {}) {ipHdr : IpHeader} {payload data : Bytes}
    {seg : TcpHeader} (hseg : TcpTable.acceptedSegment ipHdr payload = some (seg, data))
    (hrst : hasFlag seg.flags tcpRst) (now : Instant) (iss : UInt32) :
    h.table.Ended (TcpTable.segmentKey ipHdr seg) (h.table.handleSegment now iss ipHdr payload) ↔
      ¬ h.table.OpensOnReset ipHdr seg := by
  rw [TcpTable.handleSegment, hseg]
  refine TcpTable.demux_rst_iff hrst fun c hc ↦ ?_
  rw [h.agree] at hc
  obtain ⟨t, ht, rfl⟩ := Option.map_eq_some_iff.mp hc
  exact (hh.track ht).handshake.1

/-- A reset with every other flag for a connection that is being opened. -/
theorem rst_ended_synSent :
    let h := Host.new.step (.connect 0 1000 1 2 80)
    let p : Packet := ⟨2, 1, ⟨80, 49152, 0, 0, 80, 0x3F, 0, 0, 0⟩, [7]⟩
    h.table.Ended ⟨1, 49152, 2, 80⟩ (h.table.handleSegment 0 0 p.ipHeader p.segment) := by
  intro h p
  have hseg : TcpTable.acceptedSegment p.ipHeader p.segment =
      some ({ p.hdr with checksum := p.checksum }, [7]) := by
    decide +kernel
  refine (rst_ended_iff ((reachable_new {}).call _) hseg (by decide) 0 0).mpr ?_
  rintro ⟨-, hack, -⟩
  exact hack (by decide)

/-- A SYN with RST to a listening port is answered with SYN,ACK and opens a connection. -/
theorem exists_rst_opens :
    ∃ (h : Host) (p : Packet) (c : TcpConnection), h.Reachable {} ∧ hasFlag p.hdr.flags tcpRst ∧
      h.table.lookup ⟨1, 80, 2, 5000⟩ = none ∧
      (h.step (.segment 0 100 p.ipHeader p.segment)).table.lookup ⟨1, 80, 2, 5000⟩ = some c ∧
      c.state = .synRcvd ∧
      (h.out (.segment 0 100 p.ipHeader p.segment)).map Emission.flags = [tcpSyn ||| tcpAck] := by
  let p : Packet := ⟨2, 1, ⟨5000, 80, 7, 0, 80, tcpSyn ||| tcpRst, 1000, 0, 0⟩, []⟩
  let h := Host.new.step (.listen 1 80 false)
  have hfacts : ((h.step (.segment 0 100 p.ipHeader p.segment)).table.lookup
      ⟨1, 80, 2, 5000⟩).map TcpConnection.state = some .synRcvd := by
    decide +kernel
  obtain ⟨c, hc, hst⟩ := Option.map_eq_some_iff.mp hfacts
  exact ⟨h, p, c, (reachable_new {}).call _, by decide, rfl, hc, hst, by decide +kernel⟩

end Host

end MiniTcp
