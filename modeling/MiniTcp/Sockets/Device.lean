import MiniTcp.Datagrams
import MiniTcp.StackRun

/-!
# What a stack writes to its device

Every packet a call writes is a segment of one of the calls it makes of the TCP table, a
datagram that was passed to `sendto`, the echo of a datagram that nobody waits for, or an
ICMP echo reply.  As for TCP, the calls of the UDP table behind a call of the stack are a
list of calls of the table's own interface.
-/

namespace MiniTcp

open BigEndian

/-! ## The calls of the tables -/

namespace TcpTable

def outAlong : TcpTable → List TableEvent → List Emission
  | _, [] => []
  | t, e :: es => (t.step e).2 ++ outAlong (t.step e).1 es

theorem outAlong_append (t : TcpTable) (es es' : List TableEvent) :
    t.outAlong (es ++ es') = t.outAlong es ++ (t.run es).outAlong es' := by
  induction es generalizing t with
  | nil => rfl
  | cons e es ih =>
      rw [List.cons_append, outAlong, outAlong, ih, List.append_assoc]
      rfl

end TcpTable

namespace UdpTable

def run (t : UdpTable) (es : List UdpEvent) : UdpTable := es.foldl step t

end UdpTable

/-- The arguments of a datagram that is sent. -/
structure Sendto where
  srcAddr : UInt32
  srcPort : UInt16
  dstAddr : UInt32
  dstPort : UInt16
  data : Bytes
  deriving DecidableEq, Repr

namespace Sendto

def packet (d : Sendto) : Option Bytes :=
  sendDatagram d.srcAddr d.srcPort d.dstAddr d.dstPort d.data

def echo (d : Sendto) : Sendto := ⟨d.dstAddr, d.dstPort, d.srcAddr, d.srcPort, d.data⟩

end Sendto

namespace Stack

/-- The packets a call writes. -/
def output (s : Stack) : StackEvent → List Bytes
  | .pump p => (s.pumpOnce p).2
  | .accept listener start pumps => (s.accept listener start pumps).2.1
  | .connect id now iss remoteAddr remotePort pumps =>
      (s.connect id now iss remoteAddr remotePort pumps).2.1
  | .send id now data => (s.send id now data).2.1
  | .recv id len start pumps => (s.recv id len start pumps).2.1
  | .close id now pumps => (s.close id now pumps).2
  | .sendto id data dstAddr dstPort => (s.sendto id data dstAddr dstPort).2.1
  | .recvfrom id len start pumps => (s.recvfrom id len start pumps).2.1
  | .socket | .listen .. | .udpSocket | .bind .. | .setsockopt .. => []

/-- The datagram a call sends. -/
def sends (s : Stack) : StackEvent → Option Sendto
  | .sendto id data dstAddr dstPort =>
      match s.socketOf id with
      | none => none
      | some sock =>
          if sock.kind ≠ .udp then none
          else
            let key := (s.sendtoKey id sock).2
            some ⟨key.1, key.2, dstAddr, dstPort, data⟩
  | _ => none

def packetDatagrams (buf : Bytes) : List UdpEvent :=
  match acceptedPacket buf with
  | none => []
  | some (ipHdr, payload) => if ipHdr.protocol = 17 then [.datagram ipHdr payload] else []

def bindCall (sock : Socket) (key : UInt32 × UInt16) : UdpEvent :=
  .bind key.1 key.2 sock.opts.reuseAddr (sock.opts.rcvbuf.getD defaultRecvQueueCapBytes)

/-- What a call that does not wait does with the UDP table. -/
def udpCalls (s : Stack) : StackEvent → List UdpEvent
  | .pump p =>
      match p.packet with
      | none => []
      | some buf => packetDatagrams buf
  | .close id _ _ => ((s.udpKeyOf id).map UdpEvent.unbind).toList
  | .bind id addr port =>
      match s.socketOf id with
      | none => []
      | some sock =>
          if sock.kind ≠ .udp then []
          else [bindCall sock (if addr = 0 then s.selfAddr else addr, port)]
  | .sendto id _ _ _ =>
      match s.socketOf id with
      | none => []
      | some sock =>
          if sock.kind ≠ .udp then []
          else
            match sock.udpKey with
            | some _ => []
            | none => [bindCall sock (s.selfAddr, s.nextUdpEphemeralPort)]
  | .recvfrom id _ _ _ => ((s.udpKeyOf id).map UdpEvent.recv).toList
  | .setsockopt id (.rcvBuf v) =>
      if v = 0 then []
      else ((s.udpKeyOf id).map fun key ↦ UdpEvent.setRecvCap key v).toList
  | _ => []

variable {s : Stack} {e : StackEvent} {buf : Bytes}

theorem dispatchIpPacket_udp (s : Stack) (now : Instant) (iss : UInt32) (buf : Bytes) :
    (s.dispatchIpPacket now iss buf).1.udp = s.udp.run (packetDatagrams buf) := by
  unfold dispatchIpPacket packetDatagrams
  cases acceptedPacket buf with
  | none => rfl
  | some packet =>
      obtain ⟨ipHdr, payload⟩ := packet
      dsimp only
      unfold handlePacket
      by_cases hudp : ipHdr.protocol = 17
      · rw [if_pos hudp, if_neg (by rw [hudp]; decide), if_pos hudp]
        rfl
      · rw [if_neg hudp, if_neg hudp]
        split_ifs <;> rfl

theorem step_udp (he : e.Immediate) : (s.step e).udp = s.udp.run (s.udpCalls e) := by
  cases e with
  | pump p =>
      simp only [step, pumpOnce, tick, udpCalls]
      cases p.packet with
      | none => rfl
      | some buf => exact s.dispatchIpPacket_udp p.received p.iss buf
  | socket | udpSocket => rfl
  | listen id port =>
      simp only [step, listen]
      cases s.socketOf id <;> rfl
  | accept listener start pumps =>
      obtain rfl := he
      rw [step_accept]
      cases s.acceptable listener <;> rfl
  | connect id now iss remoteAddr remotePort pumps =>
      obtain rfl := he
      rw [step_connect]
      cases s.socketOf id <;> rfl
  | send id now data => rw [step_send]; rfl
  | recv id len start pumps =>
      obtain rfl := he
      rw [step_recv]
      rfl
  | close id now pumps =>
      obtain rfl := he
      rw [step_close, udpCalls]
      cases s.udpKeyOf id <;> rfl
  | bind id addr port =>
      simp only [step, bind, udpCalls]
      cases s.socketOf id with
      | none => rfl
      | some sock =>
          dsimp only
          by_cases hkind : sock.kind = .udp
          · rw [if_neg (not_not.mpr hkind), if_neg (not_not.mpr hkind)]
            dsimp only
            split_ifs <;> rfl
          · rw [if_pos hkind, if_pos hkind]
            rfl
  | sendto id data dstAddr dstPort =>
      simp only [step, sendto, sendtoKey, udpCalls]
      cases s.socketOf id with
      | none => rfl
      | some sock =>
          dsimp only
          by_cases hkind : sock.kind = .udp
          · rw [if_neg (not_not.mpr hkind), if_neg (not_not.mpr hkind)]
            cases sock.udpKey <;> rfl
          · rw [if_pos hkind, if_pos hkind]
            rfl
  | recvfrom id len start pumps =>
      obtain rfl := he
      rw [step_recvfrom, udpCalls]
      cases s.udpKeyOf id <;> rfl
  | setsockopt id opt =>
      simp only [step, setsockopt]
      cases hsock : s.socketOf id with
      | none => cases opt <;> simp [udpCalls, udpKeyOf, view, hsock, UdpTable.run]
      | some sock =>
          cases opt with
          | rcvTimeo d => rfl
          | reuseAddr v => rfl
          | rcvBuf v =>
              simp only [udpCalls, udpKeyOf, view, hsock, Option.bind_some]
              by_cases hv : v = 0
              · rw [if_pos hv, if_pos hv]
                rfl
              · rw [if_neg hv, if_neg hv]
                cases sock.kind with
                | tcp => cases sock.connKey <;> rfl
                | udp => cases sock.udpKey <;> rfl
          | sndBuf v =>
              dsimp only
              split_ifs
              · rfl
              · split <;> rfl

theorem selfAddr_step (he : e.Immediate) : (s.step e).selfAddr = s.selfAddr := by
  cases e with
  | pump p =>
      obtain ⟨tcp, udp, hpump⟩ := s.pumpOnce_frame p
      rw [step, hpump]
  | socket | udpSocket => rfl
  | listen id port =>
      simp only [step, listen]
      cases s.socketOf id <;> rfl
  | accept listener start pumps =>
      obtain rfl := he
      rw [step_accept]
      cases s.acceptable listener <;> rfl
  | connect id now iss remoteAddr remotePort pumps =>
      obtain rfl := he
      rw [step_connect]
      cases s.socketOf id <;> rfl
  | send id now data => rw [step_send]
  | recv id len start pumps =>
      obtain rfl := he
      rw [step_recv]
  | close id now pumps =>
      obtain rfl := he
      rw [step_close]
  | bind id addr port =>
      simp only [step, bind]
      split
      · rfl
      · split_ifs <;> rfl
  | sendto id data dstAddr dstPort =>
      simp only [step, sendto, sendtoKey]
      split
      · rfl
      · split_ifs
        · rfl
        · split <;> rfl
  | recvfrom id len start pumps =>
      obtain rfl := he
      rw [step_recvfrom]
  | setsockopt id opt =>
      simp only [step, setsockopt]
      cases s.socketOf id with
      | none => rfl
      | some sock =>
          cases opt with
          | rcvTimeo d => rfl
          | reuseAddr v => rfl
          | rcvBuf v | sndBuf v =>
              dsimp only
              split_ifs
              · rfl
              · split <;> rfl

/-! ## The packets of a call -/

/-- Where a packet that a call writes comes from. -/
inductive Outgoing (s : Stack) (e : StackEvent) (buf : Bytes) : Prop
  | segment {m : Emission} (hm : m ∈ s.tcp.outAlong (s.calls e)) (hbuf : buf = m.packet.bytes)
  | datagram {d : Sendto} (hd : s.sends e = some d) (hbuf : d.packet = some buf)
  | echo {ipHdr : IpHeader} {payload : Bytes}
      (hcall : UdpEvent.datagram ipHdr payload ∈ s.udpCalls e)
      (hbuf : buf ∈ (s.udp.handleDatagram ipHdr payload).2)
  | icmp {ipHdr : IpHeader} (hparse : parseIpHeader buf = some ipHdr) (hproto : ipHdr.protocol = 1)

theorem parse_handleIcmp {ipHdr : IpHeader} {payload : Bytes} (hversion : ipHdr.version = 4)
    (h : buf ∈ handleIcmp ipHdr payload) :
    ∃ ipHdr', parseIpHeader buf = some ipHdr' ∧ ipHdr'.protocol = 1 := by
  unfold handleIcmp at h
  split_ifs at h
  · cases h
  · cases h
  · rw [List.mem_singleton.mp h]
    exact ⟨_, parseIpHeader_append (plain_echoReplyHeader hversion _) _ _, rfl⟩

theorem outgoing_dispatch {p : Pump} {packet : Bytes} (hp : p.packet = some packet)
    (h : buf ∈ (s.dispatchIpPacket p.received p.iss packet).2) : s.Outgoing (.pump p) buf := by
  unfold dispatchIpPacket at h
  cases hacc : acceptedPacket packet with
  | none =>
      rw [hacc] at h
      cases h
  | some accepted =>
      obtain ⟨ipHdr, payload⟩ := accepted
      rw [hacc] at h
      obtain ⟨hparse, -⟩ := acceptedPacket_eq_some.mp hacc
      simp only [handlePacket] at h
      split_ifs at h with hicmp hudp htcp
      · obtain ⟨ipHdr', hparse', hproto⟩ := parse_handleIcmp (parseIpHeader_version hparse) h
        exact .icmp hparse' hproto
      · have hcall : .datagram ipHdr payload ∈ s.udpCalls (.pump p) := by
          simp [udpCalls, hp, packetDatagrams, hacc, hudp]
        exact .echo hcall h
      · obtain ⟨m, hm, rfl⟩ := List.mem_map.mp h
        refine .segment ?_ rfl
        have hcalls : packetCalls p.received p.iss packet =
            [.segment p.received p.iss ipHdr payload] := by
          simp [packetCalls, hacc, htcp]
        rw [calls, pumpCalls, hp]
        dsimp only
        rw [hcalls]
        exact List.mem_append_left _ hm
      · cases h

theorem outgoing_pump {p : Pump} (h : buf ∈ (s.pumpOnce p).2) : s.Outgoing (.pump p) buf := by
  have htick {t : TcpTable} (ht : t = s.tcp.run (pumpCalls p).dropLast)
      (hbuf : buf ∈ (t.tick p.ticked).2.map fun m ↦ m.packet.bytes) :
      s.Outgoing (.pump p) buf := by
    obtain ⟨m, hm, rfl⟩ := List.mem_map.mp hbuf
    refine .segment (m := m) ?_ rfl
    have hsplit : pumpCalls p = (pumpCalls p).dropLast ++ [.tick p.ticked] := by
      simp [pumpCalls]
    rw [calls, hsplit, TcpTable.outAlong_append, ← ht]
    exact List.mem_append_right _ (List.mem_append_left _ hm)
  unfold pumpOnce at h
  cases hp : p.packet with
  | none =>
      rw [hp] at h
      refine htick ?_ h
      simp [pumpCalls, hp, TcpTable.run]
  | some packet =>
      rw [hp] at h
      rcases List.mem_append.mp h with h | h
      · exact outgoing_dispatch hp h
      · refine htick ?_ h
        simp [pumpCalls, hp, dispatchIpPacket_tcp]

theorem rounds_nil_out {α : Type} (poll : Stack → Option α) (n : ℕ) (s : Stack) :
    (rounds poll n [] s).2.1 = [] := by
  cases n with
  | zero => rfl
  | succ n =>
      unfold rounds
      cases poll s <;> rfl

theorem outgoing_output (he : e.Immediate) (h : buf ∈ s.output e) : s.Outgoing e buf := by
  cases e with
  | pump p => exact outgoing_pump h
  | accept listener start pumps =>
      obtain rfl := he
      simp only [output, accept] at h
      split at h
      · cases h
      · split_ifs at h <;> cases h
  | connect id now iss remoteAddr remotePort pumps =>
      obtain rfl := he
      simp only [output, connect] at h
      cases hsock : s.socketOf id with
      | none =>
          rw [hsock] at h
          cases h
      | some sock =>
          simp only [hsock, rounds_nil_out, List.append_nil] at h
          obtain ⟨m, hm, rfl⟩ := List.mem_map.mp h
          refine .segment ?_ rfl
          simp only [calls, hsock]
          exact List.mem_append_left _ hm
  | send id now data =>
      simp only [output, send] at h
      cases hkey : (s.socketOf id).bind fun sock ↦ sock.connKey with
      | none =>
          rw [hkey] at h
          cases h
      | some key =>
          rw [hkey] at h
          obtain ⟨m, hm, rfl⟩ := List.mem_map.mp h
          refine .segment ?_ rfl
          simp only [calls, hkey]
          exact List.mem_append_left _ hm
  | recv id len start pumps =>
      obtain rfl := he
      simp only [output, recv] at h
      split at h
      · cases h
      · split at h <;> cases h
  | close id now pumps =>
      obtain rfl := he
      simp only [output, close] at h
      cases hsock : s.socketOf id with
      | none =>
          rw [hsock] at h
          cases h
      | some sock =>
          rw [hsock] at h
          dsimp only at h
          cases hkind : sock.kind with
          | udp =>
              rw [hkind] at h
              dsimp only at h
              split at h <;> cases h
          | tcp =>
              rw [hkind] at h
              dsimp only at h
              cases hkey : sock.connKey with
              | none =>
                  rw [hkey] at h
                  cases h
              | some key =>
                  simp only [hkey, rounds_nil_out, List.append_nil] at h
                  obtain ⟨m, hm, rfl⟩ := List.mem_map.mp h
                  refine .segment ?_ rfl
                  simp only [calls, connKeyOf, hsock, Option.bind_some, hkind, if_true, hkey]
                  exact List.mem_append_left _ hm
  | sendto id data dstAddr dstPort =>
      simp only [output, sendto] at h
      cases hsock : s.socketOf id with
      | none =>
          rw [hsock] at h
          cases h
      | some sock =>
          rw [hsock] at h
          dsimp only at h
          by_cases hkind : sock.kind = .udp
          · rw [if_neg (not_not.mpr hkind)] at h
            refine .datagram (d := ⟨_, _, dstAddr, dstPort, data⟩) ?_ (Option.mem_toList.mp h)
            simp only [sends, hsock]
            rw [if_neg (not_not.mpr hkind)]
          · rw [if_pos hkind] at h
            cases h
  | recvfrom id len start pumps =>
      obtain rfl := he
      simp only [output, recvfrom] at h
      split at h
      · cases h
      · split_ifs at h <;> cases h
  | socket | listen | udpSocket | bind | setsockopt => cases h

end Stack

end MiniTcp
